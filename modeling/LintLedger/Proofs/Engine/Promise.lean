import LintLedger.Proofs.Engine.Work
import Mathlib

/-!
# What work on the store promises

Work that is begun in a state of some kind either answers and leaves a state that goes with its answer,
or fails and leaves one that goes with its failure (`Promises`).  There is a rule for each way in which
the work of a cycle is put together, so that a promise is proved along the work itself.
-/

namespace LintLedger.Store

variable {σ α β : Type} {P : σ → Prop} {m : ExceptT Failure (StateM σ) α} {Q : α → σ → Prop}
  {E E' : Failure → σ → Prop}

/-- whether work begun in a state of one kind leaves one of another, by its answer or its failure -/
def Promises (P : σ → Prop) (m : ExceptT Failure (StateM σ) α) (Q : α → σ → Prop)
    (E : Failure → σ → Prop) : Prop :=
  ∀ x, P x → match m.run.run x with
    | (.ok a, y) => Q a y
    | (.error f, y) => E f y

namespace Promises

theorem pure {a : α} (h : ∀ x, P x → Q a x) : Promises P (pure a) Q E := h

theorem throw {f : Failure} (h : ∀ x, P x → E f x) :
    Promises P (throw f : ExceptT Failure (StateM σ) α) Q E := h

/-- what is promised of failures may be said with less -/
theorem failing (h : Promises P m Q E) (less : ∀ f x, E f x → E' f x) : Promises P m Q E' := by
  intro x start
  have after := h x start
  rcases run : m.run.run x with ⟨f | a, y⟩ <;> rw [run] at after
  · exact less f y after
  · exact after

theorem bind {f : α → ExceptT Failure (StateM σ) β} {R : β → σ → Prop} (hm : Promises P m Q E)
    (hf : ∀ a, Promises (Q a) (f a) R E) : Promises P (m >>= f) R E := by
  intro x start
  have mid := hm x start
  rw [run_bind]
  rcases run : m.run.run x with ⟨e | a, y⟩ <;> rw [run] at mid
  · exact mid
  · exact hf a y mid

theorem tryCatch {handle : Failure → ExceptT Failure (StateM σ) α} (hm : Promises P m Q E)
    (hf : ∀ f, Promises (E f) (handle f) Q E') : Promises P (tryCatch m handle) Q E' := by
  intro x start
  have mid := hm x start
  rw [run_tryCatch]
  rcases run : m.run.run x with ⟨f | a, y⟩ <;> rw [run] at mid
  · exact hf f y mid
  · exact mid

/-- work on every item of a list, each of which takes up what is promised of those before it -/
theorem forM {items : List β} {K : List β → σ → Prop} {work : β → ExceptT Failure (StateM σ) Unit}
    (step : ∀ i rest, i ∈ items → Promises (K (i :: rest)) (work i) (fun _ => K rest) E) :
    Promises (K items) (items.forM work) (fun _ => K []) E := by
  induction items with
  | nil => exact .pure fun _ h => h
  | cons i rest ih =>
    refine .bind (step i rest List.mem_cons_self) fun _ => ih fun j later hj => ?_
    exact step j later (List.mem_cons_of_mem i hj)

variable {S : Store → Prop} {T : α → Store → Prop} {F : Failure → Store → Prop}

theorem given {outcome : Except Failure α} (answered : ∀ s a, outcome = .ok a → S s → T a s)
    (failed : ∀ s f, outcome = .error f → S s → F f s) :
    Promises (ofStore S) (given outcome) (fun a => ofStore (T a)) (fun f => ofStore (F f)) := by
  intro x start
  have run : (Store.given outcome).run.run x = (outcome, x) := rfl
  rw [run]
  cases outcome with
  | error f => exact failed x.1 f rfl start
  | ok a => exact answered x.1 a rfl start

theorem timed {work : Instant → ExceptT Failure (StateM Store) α}
    (h : ∀ now, Promises S (work now) T F) :
    Promises (ofStore S) (timed work) (fun a => ofStore (T a)) (fun f => ofStore (F f)) := by
  intro x start
  obtain ⟨s, clock⟩ := x
  have after := h (clock 0) s start
  rw [run_timed]
  rcases run : (work (clock 0)).run.run s with ⟨f | a, t⟩ <;> rw [run] at after <;> exact after

theorem untimed {work : ExceptT Failure (StateM Store) α} (h : Promises S work T F) :
    Promises (ofStore S) (untimed work) (fun a => ofStore (T a)) (fun f => ofStore (F f)) := by
  intro x start
  have after := h x.1 start
  have whole : (Store.untimed work).run.run x = ((work.run.run x.1).1, (work.run.run x.1).2, x.2) := rfl
  rw [whole]
  rcases run : work.run.run x.1 with ⟨f | a, t⟩ <;> rw [run] at after <;> exact after

theorem commit {work : Store → Except Failure (α × Store)}
    (answered : ∀ s a t, S s → work s = .ok (a, t) → T a t)
    (failed : ∀ s f, S s → work s = .error f → F f s) : Promises S (commit work) T F := by
  intro s start
  rw [run_commit]
  cases done : work s with
  | error f => exact failed s f start done
  | ok p => exact answered s p.1 p.2 start done

theorem commitChange {work : Store → Except Failure Store} {T : Store → Prop}
    (answered : ∀ s t, S s → work s = .ok t → T t)
    (failed : ∀ s f, S s → work s = .error f → F f s) :
    Promises S (commitChange work) (fun _ => T) F := by
  refine .commit (fun s _ t start done => ?_) fun s f start done => ?_
  · obtain ⟨u, changed, same⟩ := Outcome.map_eq_ok.mp done
    cases same
    exact answered s _ start changed
  · cases changed : work s with
    | error g =>
      rw [changed] at done
      cases done
      exact failed s f start changed
    | ok t =>
      rw [changed] at done
      cases done

end Promises

end LintLedger.Store
