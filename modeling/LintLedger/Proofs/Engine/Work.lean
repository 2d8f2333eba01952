import LintLedger.Engine.Cycle
import LintLedger.Proofs.Outcome
import Mathlib

/-!
# Work on the store

The parts of a cycle work on the store one after another, each from where the part before it left the
store and the clock, and any of them may fail.  Once all of it has ended well, each part has
(`yields_bind`).  And whether or not it has, what every part of it preserves, all of it does
(`Preserves.bind`, `Preserves.tryCatch`).
-/

namespace LintLedger.Store

variable {σ α β : Type} {x y z : σ} {m : ExceptT Failure (StateM σ) α}

theorem run_bind {f : α → ExceptT Failure (StateM σ) β} :
    (m >>= f).run.run x = match m.run.run x with
      | (.ok a, y) => (f a).run.run y
      | (.error e, y) => (.error e, y) := by
  rw [ExceptT.run_bind, StateT.run_bind]
  change (fun p : Except Failure α × σ => _) (m.run.run x) = _
  rcases m.run.run x with ⟨e | a, y⟩ <;> rfl

theorem run_tryCatch {handle : Failure → ExceptT Failure (StateM σ) α} :
    (tryCatch m handle).run.run x = match m.run.run x with
      | (.ok a, y) => (.ok a, y)
      | (.error f, y) => (handle f).run.run y := by
  rw [ExceptT.run_tryCatch, StateT.run_bind]
  change (fun p : Except Failure α × σ => _) (m.run.run x) = _
  rcases m.run.run x with ⟨f | a, y⟩ <;> rfl

theorem run_commit {work : Store → Except Failure (α × Store)} {s : Store} :
    (commit work).run.run s = match work s with
      | .ok (a, t) => (.ok a, t)
      | .error f => (.error f, s) := rfl

theorem run_timed {work : Instant → ExceptT Failure (StateM Store) α} {s : Store} {clock : Clock} :
    (timed work).run.run (s, clock) =
      (((work (clock 0)).run.run s).1, ((work (clock 0)).run.run s).2, clock.next) := rfl

/-! ### Work that ends well -/

/-- work that ends well: begun in one state it answers with something and leaves another -/
def Yields (m : ExceptT Failure (StateM σ) α) (x : σ) (a : α) (y : σ) : Prop :=
  m.run.run x = (.ok a, y)

theorem yields_pure {a b : α} : Yields (pure a) x b y ↔ a = b ∧ x = y := by
  change ((Except.ok a, x) : Except Failure α × σ) = (.ok b, y) ↔ _
  simp

theorem yields_bind {f : α → ExceptT Failure (StateM σ) β} {b : β} :
    Yields (m >>= f) x b z ↔ ∃ a y, Yields m x a y ∧ Yields (f a) y b z := by
  unfold Yields
  rw [run_bind]
  rcases m.run.run x with ⟨e | a, y⟩
  · constructor
    · rintro ⟨⟩
    · rintro ⟨a, y, ⟨⟩, -⟩
  · constructor
    · exact fun h => ⟨a, y, rfl, h⟩
    · rintro ⟨a, y, ⟨⟩, h⟩
      exact h

/-- work whose failure is taken up by something that fails all the same -/
theorem yields_tryCatch {handle : Failure → ExceptT Failure (StateM σ) α} {a : α}
    (fails : ∀ f x b y, ¬ Yields (handle f) x b y) :
    Yields (tryCatch m handle) x a y ↔ Yields m x a y := by
  unfold Yields
  rw [run_tryCatch]
  rcases m.run.run x with ⟨e | b, z⟩
  · constructor
    · exact fun h => absurd h (fails e z a y)
    · rintro ⟨⟩
  · exact Iff.rfl

theorem not_yields_throw {f : Failure} {a : α} :
    ¬ Yields (throw f : ExceptT Failure (StateM σ) α) x a y := by
  intro h
  cases h

theorem yields_commit {work : Store → Except Failure (α × Store)} {s t : Store} {a : α} :
    Yields (commit work) s a t ↔ work s = .ok (a, t) := by
  unfold Yields
  rw [run_commit]
  cases work s with
  | error f => constructor <;> rintro ⟨⟩
  | ok done => constructor <;> (rintro ⟨⟩; rfl)

theorem yields_commitChange {work : Store → Except Failure Store} {s t : Store} {u : Unit} :
    Yields (commitChange work) s u t ↔ work s = .ok t := by
  unfold commitChange
  rw [yields_commit]
  constructor
  · intro h
    obtain ⟨t', done, same⟩ := Outcome.map_eq_ok.mp h
    cases same
    exact done
  · exact fun done => Outcome.map_eq_ok.mpr ⟨t, done, rfl⟩

theorem yields_timed {work : Instant → ExceptT Failure (StateM Store) α} {s t : Store}
    {clock later : Clock} {a : α} :
    Yields (timed work) (s, clock) a (t, later) ↔ Yields (work (clock 0)) s a t ∧ later = clock.next := by
  unfold Yields
  rw [run_timed]
  rcases (work (clock 0)).run.run s with ⟨outcome, u⟩
  constructor
  · rintro ⟨⟩
    exact ⟨rfl, rfl⟩
  · rintro ⟨⟨⟩, rfl⟩
    rfl

theorem yields_untimed {work : ExceptT Failure (StateM Store) α} {s t : Store} {clock later : Clock}
    {a : α} : Yields (untimed work) (s, clock) a (t, later) ↔ Yields work s a t ∧ later = clock := by
  have run : (untimed work).run.run (s, clock) = ((work.run.run s).1, (work.run.run s).2, clock) := rfl
  unfold Yields
  rw [run]
  rcases work.run.run s with ⟨outcome, u⟩
  constructor
  · rintro ⟨⟩
    exact ⟨rfl, rfl⟩
  · rintro ⟨⟨⟩, rfl⟩
    rfl

theorem yields_given {outcome : Except Failure α} {a : α} {x y : Store × Clock} :
    Yields (given outcome) x a y ↔ outcome = .ok a ∧ x = y := by
  change (outcome, x) = (Except.ok a, y) ↔ _
  simp

theorem yields_storing {k : StoreSettings} {vs : List Violation} {s : Store} {clock : Clock}
    {r : StoreResult} {y : Store × Clock} :
    Yields (storing k vs) (s, clock) r y ↔ storeViolations k clock vs s = (.ok r, y) := Iff.rfl

/-! ### Work that preserves something -/

/-- whether work that begins in a state of some kind leaves one of that kind, even if it fails -/
def Preserves (P : σ → Prop) (m : ExceptT Failure (StateM σ) α) : Prop :=
  ∀ x, P x → P (m.run.run x).2

/-- something that is said of a store, whatever the clock is -/
def ofStore (P : Store → Prop) (x : Store × Clock) : Prop := P x.1

variable {P : σ → Prop} {Q : Store → Prop}

theorem Preserves.pure (a : α) : Preserves P (pure a) := fun _ h => h

theorem Preserves.throw (f : Failure) : Preserves P (throw f : ExceptT Failure (StateM σ) α) :=
  fun _ h => h

theorem Preserves.given (outcome : Except Failure α) : Preserves (ofStore Q) (given outcome) :=
  fun _ h => h

theorem Preserves.bind {f : α → ExceptT Failure (StateM σ) β} (hm : Preserves P m)
    (hf : ∀ a, Preserves P (f a)) : Preserves P (m >>= f) := by
  intro x h
  have mid := hm x h
  rw [run_bind]
  rcases run : m.run.run x with ⟨e | a, y⟩
  · rw [run] at mid
    exact mid
  · rw [run] at mid
    exact hf a y mid

theorem Preserves.tryCatch {handle : Failure → ExceptT Failure (StateM σ) α} (hm : Preserves P m)
    (hf : ∀ f, Preserves P (handle f)) : Preserves P (tryCatch m handle) := by
  intro x h
  have mid := hm x h
  rw [run_tryCatch]
  rcases run : m.run.run x with ⟨f | a, y⟩
  · rw [run] at mid
    exact hf f y mid
  · rw [run] at mid
    exact mid

theorem Preserves.timed {work : Instant → ExceptT Failure (StateM Store) α}
    (h : ∀ now, Preserves Q (work now)) : Preserves (ofStore Q) (timed work) :=
  fun x start => h (x.2 0) x.1 start

theorem Preserves.untimed {work : ExceptT Failure (StateM Store) α} (h : Preserves Q work) :
    Preserves (ofStore Q) (untimed work) :=
  fun x start => h x.1 start

theorem Preserves.commit {work : Store → Except Failure (α × Store)}
    (step : ∀ s a t, Q s → work s = .ok (a, t) → Q t) : Preserves Q (commit work) := by
  intro s h
  rw [run_commit]
  cases done : work s with
  | error f => exact h
  | ok p => exact step s p.1 p.2 h done

theorem Preserves.commitChange {work : Store → Except Failure Store}
    (step : ∀ s t, Q s → work s = .ok t → Q t) : Preserves Q (commitChange work) := by
  refine .commit fun s _ t h done => ?_
  obtain ⟨u, changed, same⟩ := Outcome.map_eq_ok.mp done
  cases same
  exact step s _ h changed

theorem Preserves.yields {a : α} (hm : Preserves P m) (h : Yields m x a y) (start : P x) : P y := by
  have after := hm x start
  unfold Yields at h
  rw [h] at after
  exact after

theorem Preserves.forM {items : List β} {work : β → ExceptT Failure (StateM σ) Unit}
    (step : ∀ i ∈ items, Preserves P (work i)) : Preserves P (items.forM work) := by
  induction items with
  | nil => exact .pure ()
  | cons i rest ih => exact .bind (step i List.mem_cons_self) fun _ => ih fun j hj => step j (List.mem_cons_of_mem i hj)

end LintLedger.Store
