import LintLedger.Proofs.Engine.Cycle
import LintLedger.Proofs.Store.Delta
import LintLedger.Proofs.Store.Lifecycle
import Mathlib

/-!
# What a cycle leaves, however it ends

A cycle may fail at any point, and what it has written by then mostly stays.  Whatever happens, it only
adds to the store: rows of its accepted violations, checks, and history under checks that are known
(`cycle_advances`).  So in every run of cycles, resolving and cleaning up no fingerprint has two rows
and every check in the history is known (`CycleRun.tracked`).
-/

namespace LintLedger

open Outcome

namespace Store

/-! ### Fingerprints of a store -/

/-- the rows of violations -/
def rowsOf (s : Store) : List ViolationRow := s.violations.getD []

/-- the rows of history -/
def historyRows (s : Store) : List HistoryRow := s.history.getD []

/-- all fingerprints in the store -/
def prints (s : Store) : Finset String := (printsOf s.rowsOf).toFinset

/-- the fingerprints of its active violations -/
def activePrints (s : Store) : Finset String := (printsOf (s.rowsOf.filter (·.isActive))).toFinset

/-- the history of one check -/
def historyUnder (s : Store) (check : Int) : List HistoryRow := s.historyRows.filter (·.check = check)

variable {s t : Store} {f : String}

theorem mem_prints : f ∈ s.prints ↔ ∃ r ∈ s.rowsOf, r.fingerprint = f := by
  unfold prints
  rw [List.mem_toFinset, mem_printsOf]

theorem mem_activePrints :
    f ∈ s.activePrints ↔ ∃ r ∈ s.rowsOf, r.status = .active ∧ r.fingerprint = f := by
  unfold activePrints
  rw [List.mem_toFinset, mem_printsOf]
  simp [ViolationRow.isActive, and_assoc]

/-- an active fingerprint is one that is there -/
theorem activePrints_subset : s.activePrints ⊆ s.prints := by
  intro f hf
  obtain ⟨r, hr, -, same⟩ := mem_activePrints.mp hf
  exact mem_prints.mpr ⟨r, hr, same⟩

/-- the number of no check so far is that of a new one -/
theorem startCheck_fresh {now : Instant} {rule engine : Value} {id : Int}
    (h : startCheck now rule engine s = .ok (id, t)) : id ∉ s.checkIds ∧ id ∈ t.checkIds := by
  obtain ⟨rows, row, known, number, same, rfl⟩ := startCheck_eq_ok h
  unfold checkIds
  rw [known]
  refine ⟨fun old => ?_, by simp [same]⟩
  obtain ⟨r, hr, hid⟩ := List.mem_map.mp old
  have below := lt_nextId CheckRow.id hr
  rw [hid, number] at below
  exact lt_irrefl _ below

/-- a store with its tables of violations and history in which no two rows have one fingerprint and
every check in the history is known -/
structure Tracked (s : Store) : Prop where
  violations : s.violations = some s.rowsOf
  history : s.history = some s.historyRows
  distinct : (printsOf s.rowsOf).Nodup
  checked : ∀ h ∈ s.historyRows, h.check ∈ s.checkIds

theorem Tracked.empty : Tracked .empty := ⟨rfl, rfl, List.nodup_nil, by simp [historyRows, Store.empty]⟩

/-! ### Adding to a store -/

/-- a store in which nothing but rows of some accepted violations, checks, and history under known
checks has been added to another -/
structure Advances (accepted : List String) (s t : Store) : Prop where
  violations : t.violations = some t.rowsOf
  history : t.history = some t.historyRows
  rows : ∃ prints, (∀ f ∈ prints, f ∈ accepted) ∧ Upserted .any prints s.rowsOf t.rowsOf
  checked : ∀ h ∈ t.historyRows, h ∈ s.historyRows ∨ h.check ∈ t.checkIds
  checks : ∀ id ∈ s.checkIds, id ∈ t.checkIds

variable {accepted : List String} {u : Store}

theorem Tracked.advances (h : s.Tracked) : Advances accepted s s :=
  ⟨h.violations, h.history, ⟨[], by simp, .refl .any s.rowsOf⟩, fun _ hr => .inl hr, fun _ hid => hid⟩

theorem Advances.tracked (h : Advances accepted s t) (tracked : s.Tracked) : t.Tracked := by
  obtain ⟨prints, -, upserted⟩ := h.rows
  refine ⟨h.violations, h.history, upserted.distinct tracked.distinct, fun r hr => ?_⟩
  rcases h.checked r hr with old | known
  · exact h.checks _ (tracked.checked r old)
  · exact known

theorem Advances.keeps (h : Advances accepted s t) (g : t.Keeps u) : Advances accepted s u := by
  have rows : u.rowsOf = t.rowsOf := by rw [rowsOf, rowsOf, g.violations]
  have history : u.historyRows = t.historyRows := by rw [historyRows, historyRows, g.history]
  refine ⟨?_, ?_, rows ▸ h.rows, fun r hr => ?_, fun id hid => g.checks id (h.checks id hid)⟩
  · rw [g.violations, rows, h.violations]
  · rw [g.history, history, h.history]
  · exact (h.checked r (history ▸ hr)).imp id (g.checks _)

/-- what was active stays so, and what is active afterwards was so or has been accepted -/
theorem Advances.activePrints (h : Advances accepted s t) :
    s.activePrints ⊆ t.activePrints ∧ t.activePrints ⊆ s.activePrints ∪ accepted.toFinset := by
  obtain ⟨prints, some, upserted⟩ := h.rows
  constructor
  · intro f hf
    exact mem_activePrints.mpr (upserted.exists_active_iff.mpr (.inl (mem_activePrints.mp hf)))
  · intro f hf
    rw [Finset.mem_union, List.mem_toFinset, mem_activePrints]
    exact (upserted.exists_active_iff.mp (mem_activePrints.mp hf)).imp id (some f)

end Store

/-! ### A cycle, however it ends -/

namespace Engine

open Store

variable {k : StoreSettings} {now : Instant} {clock : Clock} {s t : Store} {e : Engine}
  {target : Option String} {check : Int} {accepted : List String}

/-- what the work of a cycle preserves once its check has begun -/
def Underway (accepted : List String) (s : Store) (check : Int) (t : Store) : Prop :=
  Advances accepted s t ∧ check ∈ t.checkIds

theorem Underway.keeps {mid : Store} (h : Underway accepted s check t) (g : t.Keeps mid) :
    Underway accepted s check mid :=
  ⟨h.1.keeps g, g.checks _ h.2⟩

theorem recordDeltas_underway {prints : List String} {d : Delta} {mid : Store}
    (h : Underway accepted s check t)
    (done : recordDeltas now (.int check) prints t = .ok (d, mid)) :
    Underway accepted s check mid := by
  obtain ⟨rows, -, -, ⟨-, rfl⟩ | ⟨history, number, known, same, rfl⟩⟩ := recordDeltas_eq_ok done
  · exact h
  · obtain rfl := countColumn_int same
    obtain rfl : t.historyRows = history := Option.some.inj (h.1.history.symm.trans known)
    refine ⟨⟨h.1.violations, rfl, h.1.rows, fun r hr => ?_, h.1.checks⟩, h.2⟩
    rcases List.mem_append.mp hr with old | new
    · exact h.1.checked r old
    · exact .inr (check_of_mem_historyOf new ▸ h.2)

theorem storing_underway {vs : List Violation}
    (h : Underway (Violation.acceptedPrints vs) s check t) :
    Underway (Violation.acceptedPrints vs) s check (storeViolations k clock vs t).2.1 := by
  obtain ⟨rows', prints, left, some, upserted⟩ :=
    storeViolations_upserted k clock vs h.1.violations
  obtain ⟨before, some', upserted'⟩ := h.1.rows
  rw [left]
  refine ⟨⟨rfl, h.1.history, ⟨before ++ prints, fun f hf => ?_, ?_⟩, h.1.checked, h.1.checks⟩, h.2⟩
  · exact (List.mem_append.mp hf).elim (some' f) (some f)
  · exact upserted'.trans upserted (Moments.joins_any _ _)

/-- work that keeps violations, history and checks goes on being under way -/
theorem Underway.preserves {α : Type} {m : Work α}
    (h : ∀ mid : Store, Preserves (ofStore mid.Keeps) m) :
    Preserves (ofStore (Underway accepted s check)) m :=
  fun x underway => Underway.keeps underway (h x.1 x (Keeps.refl x.1))

theorem recordAnalysis_preserves (a : Analysis) :
    Preserves (ofStore (Underway (Violation.acceptedPrints a.violations) s check))
      (recordAnalysis k check a) := by
  unfold recordAnalysis
  refine .bind (.given _) fun current => ?_
  refine .bind (.timed fun now => ?_) fun delta => ?_
  · exact .commit fun mid d mid' h done => recordDeltas_underway h done
  refine .bind (fun x h => storing_underway h) fun stored => ?_
  refine .bind (Underway.preserves fun _ => .forM fun r _ => recordRun_preserves r) fun _ => ?_
  refine .bind (Underway.preserves fun _ => .timed fun now => ?_) fun _ => .pure _
  exact recordMetric_preserves

/-- keeping an analysis adds to the store, whether or not it ends well -/
theorem keep_advances (tracked : s.Tracked) (a : Analysis) :
    Advances (Violation.acceptedPrints a.violations) s ((e.keep k a).run.run (s, clock)).2.1 := by
  unfold keep
  rw [run_bind, run_timed, run_commit]
  cases started : startCheck (clock 0) everyRule conductor s with
  | error f => exact tracked.advances
  | ok begin =>
    obtain ⟨check, begun⟩ := begin
    let kind := ofStore (Underway (Violation.acceptedPrints a.violations) s check)
    have underway : kind (begun, clock.next) :=
      ⟨tracked.advances.keeps (keeps_of_startCheck started), (startCheck_fresh started).2⟩
    refine (Preserves.bind (P := kind) ?_ (fun done => ?_) (begun, clock.next) underway).1
    · refine .tryCatch (recordAnalysis_preserves a) fun f => ?_
      dsimp only
      split
      · exact .bind (Underway.preserves fun _ => markFailed_preserves f) fun _ => .throw f
      · exact .throw f
    · obtain ⟨delta, stored⟩ := done
      refine .bind (Underway.preserves fun _ => .timed fun now => ?_) fun _ => ?_
      · exact completeCheck_preserves
      exact .bind (Underway.preserves fun _ => .untimed saveSchedules_preserves) fun _ => .pure _

/-- the fingerprints that a cycle may store: those of the violations without problems that its analysis
finds -/
def acceptedBy (target : Option String) (e : Engine) : List String :=
  match (e.analyze target).1 with
  | .ok a => Violation.acceptedPrints a.violations
  | .error _ => []

/-- a cycle adds to the store, however it ends -/
theorem cycle_advances (e : Engine) (clock : Clock) (target : Option String) (tracked : s.Tracked) :
    Advances (e.acceptedBy target) s (e.cycle clock target s).2.2 := by
  unfold cycle acceptedBy
  cases e.keeping with
  | none => exact tracked.advances
  | some k =>
    rcases e.analyze target with ⟨f | a, e'⟩
    · exact tracked.advances
    · exact keep_advances tracked a

end Engine

/-! ### Runs -/

namespace Store

/-- the stores that come about from an empty one by cycles, resolving and cleaning up -/
inductive CycleRun : Store → Prop
  | empty : CycleRun .empty
  | cycle {s : Store} (e : Engine) (clock : Clock) (target : Option String) (before : CycleRun s) :
      CycleRun (e.cycle clock target s).2.2
  | resolve {s : Store} (k : StoreSettings) (now : Instant) (prints : List String)
      (before : CycleRun s) : CycleRun (handle k now s (.resolve prints)).2
  | cleanup {s : Store} (k : StoreSettings) (now : Instant) (days : Option Value)
      (before : CycleRun s) : CycleRun (handle k now s (.cleanup days)).2

variable {s t : Store} {k : StoreSettings} {now : Instant}

theorem Tracked.resolve {prints : List String} (h : s.Tracked) :
    (handle k now s (.resolve prints)).2.Tracked := by
  unfold handle respond
  rcases whole_snd with same | ⟨n, t, done, same⟩
  · rw [same]
    exact h
  · rw [same]
    rcases resolveViolations_eq_ok done with rfl | ⟨rows, known, rfl⟩
    · exact h
    · obtain rfl : s.rowsOf = rows := Option.some.inj (h.violations.symm.trans known)
      refine ⟨rfl, h.history, ?_, h.checked⟩
      change (printsOf (s.rowsOf.map _)).Nodup
      rw [printsOf_resolve]
      exact h.distinct

theorem Tracked.cleanup {days : Option Value} (h : s.Tracked) :
    (handle k now s (.cleanup days)).2.Tracked := by
  unfold handle respond
  rcases whole_snd with same | ⟨result, t, done, same⟩
  · rw [same]
    exact h
  · rw [same]
    obtain ⟨limit, history, rows, metrics, hrows, hhistory, rfl⟩ := cleanup_eq_ok done
    obtain rfl : s.rowsOf = rows := Option.some.inj (h.violations.symm.trans hrows)
    obtain rfl : s.historyRows = history := Option.some.inj (h.history.symm.trans hhistory)
    refine ⟨rfl, rfl, nodup_printsOf_filter _ h.distinct, fun row hrow => ?_⟩
    exact h.checked row (List.mem_of_mem_filter hrow)

theorem CycleRun.tracked (h : CycleRun s) : s.Tracked := by
  induction h with
  | empty => exact .empty
  | cycle e clock target _ ih => exact (Engine.cycle_advances e clock target ih).tracked ih
  | resolve k now prints _ ih => exact ih.resolve
  | cleanup k now days _ ih => exact ih.cleanup

end Store

end LintLedger
