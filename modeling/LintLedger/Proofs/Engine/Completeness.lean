import LintLedger.Proofs.Engine.Agreement
import Mathlib

/-!
# Deltas of cycles in a row

While nothing is resolved or cleaned up, what a cycle has found stays active, whether or not the cycles
after it find it again (`Cycles.bounds`).  So the change that a cycle records is not the one from the
batch before to its own, but from all that has been found so far (`consecutive_cycles`).  The two are
the same just if the batch before was all of that, as it is in the second cycle of a new store; a
finding that is gone is recorded as removed again by every later cycle that does not find it
(`removed_again`).
-/

namespace LintLedger

open Outcome

namespace Store

/-- the fingerprints of which the history of a check says one thing -/
def marked (s : Store) (check : Int) (action : DeltaAction) : Finset String :=
  (((s.historyUnder check).filter (·.action = action)).map (·.fingerprint)).toFinset

/-- the stores that cycles lead to without resolving or cleaning up, with the fingerprints that the
cycles that ended well have accepted, and those that all of them have -/
inductive Cycles (start : Store) : Finset String → Finset String → Store → Prop
  | refl : Cycles start ∅ ∅ start
  | ended {stored seen : Finset String} {s : Store} {e : Engine} {clock : Clock}
      {target : Option String} {c : Cycle} (before : Cycles start stored seen s)
      (sized : ∀ k, e.keeping = some k → 0 < k.batchSize)
      (outcome : (e.cycle clock target s).1 = .ok c) :
      Cycles start (stored ∪ c.accepted) (seen ∪ c.accepted) (e.cycle clock target s).2.2
  | failed {stored seen : Finset String} {s : Store} {e : Engine} {clock : Clock}
      {target : Option String} {f : Failure} (before : Cycles start stored seen s)
      (outcome : (e.cycle clock target s).1 = .error f) :
      Cycles start stored (seen ∪ (e.acceptedBy target).toFinset) (e.cycle clock target s).2.2

variable {start s t : Store} {stored seen : Finset String}

theorem Cycles.run (h : Cycles start stored seen s) (first : CycleRun start) : CycleRun s := by
  induction h with
  | refl => exact first
  | ended _ _ _ ih => exact .cycle _ _ _ ih
  | failed _ _ ih => exact .cycle _ _ _ ih

/-- all that was stored is active, and all that is active was so at the start or has been found -/
theorem Cycles.bounds (h : Cycles start stored seen s) (first : CycleRun start) :
    start.activePrints ∪ stored ⊆ s.activePrints ∧ s.activePrints ⊆ start.activePrints ∪ seen := by
  induction h with
  | refl => simp
  | @ended stored seen s e clock target c before sized outcome ih =>
    rw [(Engine.cycle_makes (before.run first).tracked sized outcome).activePrints_eq,
      ← Finset.union_assoc, ← Finset.union_assoc]
    exact ⟨Finset.union_subset_union_left ih.1, Finset.union_subset_union_left ih.2⟩
  | @failed stored seen s e clock target f before outcome ih =>
    obtain ⟨stays, comes⟩ := (Engine.cycle_advances e clock target
      (before.run first).tracked).activePrints
    rw [← Finset.union_assoc]
    exact ⟨ih.1.trans stays, comes.trans (Finset.union_subset_union_left ih.2)⟩

end Store

namespace Engine

open Store

variable {clock : Clock} {s t : Store} {c : Cycle}

/-- the history of a cycle marks each fingerprint as its change does -/
theorem Makes.mem_marked (h : Makes clock s t c) (tracked : s.Tracked) {action : DeltaAction} {f : String} :
    f ∈ t.marked c.check action ↔ (action, f) ∈ c.delta.entries := by
  rw [← (h.historyUnder_eq tracked).2]
  unfold marked
  simp [and_assoc]

theorem Makes.marked_eq (h : Makes clock s t c) (tracked : s.Tracked) :
    t.marked c.check .added = c.accepted \ s.activePrints ∧
      t.marked c.check .removed = s.activePrints \ c.accepted ∧
      t.marked c.check .unchanged = c.accepted ∩ s.activePrints := by
  obtain ⟨added, removed, unchanged⟩ := h.delta_eq
  rw [← added, ← removed, ← unchanged]
  refine ⟨?_, ?_, ?_⟩
  all_goals
    ext f
    rw [h.mem_marked tracked, Delta.mem_entries, List.mem_toFinset]

/-- the change from all that is active to a batch is that from the batch before just if nothing else
was active -/
theorem sdiff_eq_iff {active before batch : Finset String} :
    (batch \ (active ∪ before) = batch \ before ∧ (active ∪ before) \ batch = before \ batch ∧
      batch ∩ (active ∪ before) = batch ∩ before) ↔ active ⊆ before := by
  constructor
  · rintro ⟨-, removed, unchanged⟩ f hf
    by_cases hb : f ∈ batch
    · have : f ∈ batch ∩ before := unchanged ▸ by simp [hb, hf]
      exact (Finset.mem_inter.mp this).2
    · have : f ∈ before \ batch := removed ▸ by simp [hb, hf]
      exact (Finset.mem_sdiff.mp this).1
  · intro all
    rw [Finset.union_eq_right.mpr all]
    exact ⟨rfl, rfl, rfl⟩

/-- **Deltas of cycles in a row.** Begin with a store that cycles, resolving and cleaning up have led to,
and let cycles follow, well or not.  If two more follow and end well, the history of the second marks
added what it accepts and nothing found so far was, removed what was found so far and it does not
accept, unchanged what is both, and no fingerprint twice.  Found so far is all that was active before
the first of the two, that is all that was active at the start or that a cycle since has stored, with
what the first of them accepts.  This is the change from the batch of the first of the two to that of
the second just if the first accepts all that was active before it. -/
theorem consecutive_cycles {start s : Store} {stored seen : Finset String} (first : CycleRun start)
    (run : Cycles start stored seen s) {e e' : Engine} {clock clock' : Clock}
    {target target' : Option String} {a b : Cycle}
    (sized : ∀ k, e.keeping = some k → 0 < k.batchSize)
    (before : (e.cycle clock target s).1 = .ok a)
    (sized' : ∀ k, e'.keeping = some k → 0 < k.batchSize)
    (after : (e'.cycle clock' target' (e.cycle clock target s).2.2).1 = .ok b) :
    let t := (e'.cycle clock' target' (e.cycle clock target s).2.2).2.2
    let found := s.activePrints ∪ a.accepted
    (start.activePrints ∪ stored ⊆ s.activePrints ∧ s.activePrints ⊆ start.activePrints ∪ seen) ∧
    t.marked b.check .added = b.accepted \ found ∧
    t.marked b.check .removed = found \ b.accepted ∧
    t.marked b.check .unchanged = b.accepted ∩ found ∧
    ((t.historyUnder b.check).map (·.fingerprint)).Nodup ∧
    ((t.marked b.check .added = b.accepted \ a.accepted ∧
      t.marked b.check .removed = a.accepted \ b.accepted ∧
      t.marked b.check .unchanged = b.accepted ∩ a.accepted) ↔ s.activePrints ⊆ a.accepted) := by
  intro t found
  have tracked := (run.run first).tracked
  have one := cycle_makes tracked sized before
  have two := cycle_makes one.tracked sized' after
  obtain ⟨added, removed, unchanged⟩ := two.marked_eq one.tracked
  rw [one.activePrints_eq] at added removed unchanged
  refine ⟨run.bounds first, added, removed, unchanged, ?_, ?_⟩
  · have nodup := two.nodup_delta one.tracked
    rw [← (two.historyUnder_eq one.tracked).2, List.map_map] at nodup
    exact nodup
  · rw [added, removed, unchanged]
    exact sdiff_eq_iff

/-! ### A finding that is gone -/

/-- a store in which a violation was found by one cycle -/
def foundOnce : Store := ((probing [sample]).cycle (.still ⟨1⟩) none .empty).2.2

/-- the same store after a cycle that did not find it again -/
def goneOnce : Store := ((probing []).cycle (.still ⟨2⟩) none foundOnce).2.2

/-- and after one more -/
def goneTwice : Store := ((probing []).cycle (.still ⟨3⟩) none goneOnce).2.2

theorem foundOnce_cycles : ∃ found, Cycles .empty found found foundOnce := by
  have endsWell : ((probing [sample]).cycle (.still ⟨1⟩) none .empty).1.isOk = true := by decide +kernel
  obtain ⟨c, ended⟩ := exists_eq_ok.mpr endsWell
  exact ⟨_, .ended .refl sized_probing ended⟩

theorem goneOnce_ended : ∃ a, ((probing []).cycle (.still ⟨2⟩) none foundOnce).1 = .ok a ∧ a.accepted = ∅ := by
  have shown : (((probing []).cycle (.still ⟨2⟩) none foundOnce).1.toOption.map fun a =>
      Violation.acceptedPrints a.analysis.violations) = some [] := by
    decide +kernel
  cases ended : ((probing []).cycle (.still ⟨2⟩) none foundOnce).1 with
  | error f =>
    rw [ended] at shown
    cases shown
  | ok a =>
    rw [ended] at shown
    have nothing : Violation.acceptedPrints a.analysis.violations = [] := Option.some.inj shown
    refine ⟨a, rfl, ?_⟩
    rw [Cycle.accepted, nothing]
    rfl

theorem goneTwice_ended : ∃ b, ((probing []).cycle (.still ⟨3⟩) none goneOnce).1 = .ok b ∧
    (goneTwice.marked b.check .removed).card = 1 := by
  have shown : (((probing []).cycle (.still ⟨3⟩) none goneOnce).1.toOption.map fun b =>
      (goneTwice.marked b.check .removed).card) = some 1 := by
    decide +kernel
  cases ended : ((probing []).cycle (.still ⟨3⟩) none goneOnce).1 with
  | error f =>
    rw [ended] at shown
    cases shown
  | ok b =>
    rw [ended] at shown
    exact ⟨b, rfl, Option.some.inj shown⟩

/-- a finding that is gone is removed again although the batch before did not have it -/
theorem removed_again :
    ∃ (found : Finset String) (a b : Cycle), Cycles .empty found found foundOnce ∧
      ((probing []).cycle (.still ⟨2⟩) none foundOnce).1 = .ok a ∧
      ((probing []).cycle (.still ⟨3⟩) none goneOnce).1 = .ok b ∧
      goneTwice.marked b.check .removed ≠ a.accepted \ b.accepted := by
  obtain ⟨found, run⟩ := foundOnce_cycles
  obtain ⟨a, before, nothing⟩ := goneOnce_ended
  obtain ⟨b, after, one⟩ := goneTwice_ended
  refine ⟨found, a, b, run, before, after, fun same => ?_⟩
  rw [same, nothing, Finset.empty_sdiff, Finset.card_empty] at one
  cases one

theorem consecutive_cycles_gone :
    ∃ a b : Cycle, ((probing []).cycle (.still ⟨2⟩) none foundOnce).1 = .ok a ∧
      ((probing []).cycle (.still ⟨3⟩) none goneOnce).1 = .ok b ∧
      goneTwice.marked b.check .removed = (foundOnce.activePrints ∪ a.accepted) \ b.accepted ∧
      (foundOnce.activePrints ∪ a.accepted) \ b.accepted ≠ ∅ := by
  obtain ⟨found, run⟩ := foundOnce_cycles
  obtain ⟨a, before, -⟩ := goneOnce_ended
  obtain ⟨b, after, one⟩ := goneTwice_ended
  obtain ⟨-, -, removed, -⟩ :=
    consecutive_cycles .empty run sized_probing before sized_probing after
  refine ⟨a, b, before, after, removed, fun nothing => ?_⟩
  have removed : goneTwice.marked b.check .removed = _ := removed
  rw [removed, nothing] at one
  cases one

end Engine

end LintLedger
