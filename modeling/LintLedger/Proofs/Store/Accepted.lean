import LintLedger.Proofs.Batches
import LintLedger.Proofs.Store.Upsert
import Mathlib

/-!
# Batches that are stored

Of a batch, the violations without problems are accepted (`screen_eq_ok`).  However far a batch is
stored, it is an upsert of accepted violations (`storeViolations_upserted`).  If it is stored to its end,
of all of them, and its counts tell what became of each violation: a new row, a row seen again or a
report (`storeViolations_eq_ok`).
-/

namespace LintLedger

open Outcome

namespace Violation

/-- whether a violation has no problems -/
def isAccepted (v : Violation) : Bool :=
  match v.problems with
  | .ok problems => problems.isEmpty
  | .error _ => false

/-- the fingerprint of a violation, if it has no problems -/
def acceptedPrint? (v : Violation) : Option String :=
  if v.isAccepted then v.fingerprint.toOption else none

/-- the fingerprints of the violations without problems -/
def acceptedPrints (vs : List Violation) : List String := vs.filterMap acceptedPrint?

end Violation

namespace Store

variable {vs : List Violation}

/-- the violations that are stored are those without problems, and each of the others is reported -/
theorem screen_eq_ok {index : Nat} {valid : List (String × Violation)} {errors : List String}
    (h : screen index vs = .ok (valid, errors)) :
    valid.map Prod.fst = Violation.acceptedPrints vs ∧
      valid.length = vs.countP Violation.isAccepted ∧ valid.length + errors.length = vs.length := by
  induction vs generalizing index valid errors with
  | nil =>
    cases h
    exact ⟨rfl, rfl, rfl⟩
  | cons v rest ih =>
    unfold screen at h
    obtain ⟨problems, hproblems, h⟩ := bind_eq_ok.mp h
    have accepted : v.isAccepted = problems.isEmpty := by
      unfold Violation.isAccepted
      rw [hproblems]
    split at h
    · rename_i none
      obtain ⟨f, hf, h⟩ := bind_eq_ok.mp h
      obtain ⟨⟨valid, errors⟩, hrest, h⟩ := bind_eq_ok.mp h
      cases h
      obtain ⟨prints, count, total⟩ := ih hrest
      have print : v.acceptedPrint? = some f := by
        unfold Violation.acceptedPrint?
        rw [accepted, if_pos none, hf]
        rfl
      refine ⟨?_, ?_, ?_⟩
      · rw [List.map_cons, prints, Violation.acceptedPrints, Violation.acceptedPrints,
          List.filterMap_cons_some print]
      · rw [List.length_cons, count, List.countP_cons_of_pos (accepted.trans none)]
      · simp only [List.length_cons]
        omega
    · rename_i some
      obtain ⟨⟨valid, errors⟩, hrest, h⟩ := bind_eq_ok.mp h
      cases h
      obtain ⟨prints, count, total⟩ := ih hrest
      have print : v.acceptedPrint? = none := by
        unfold Violation.acceptedPrint?
        rw [accepted, if_neg some]
      refine ⟨?_, ?_, ?_⟩
      · rw [prints, Violation.acceptedPrints, Violation.acceptedPrints,
          List.filterMap_cons_none print]
      · rw [count, List.countP_cons_of_neg (accepted ▸ some)]
      · simp only [List.length_cons]
        omega

/-- a batch stored as far as it goes is an upsert of some of the accepted violations -/
theorem storeViolations_upserted (k : StoreSettings) (clock : Clock) (vs : List Violation) {s : Store}
    {rows : List ViolationRow} (known : s.violations = some rows) :
    ∃ rows' prints, (storeViolations k clock vs s).2.1 = { s with violations := some rows' } ∧
      (∀ f ∈ prints, f ∈ Violation.acceptedPrints vs) ∧ Upserted clock.Shows prints rows rows' := by
  have kept : s = { s with violations := some rows } := by rw [← known]
  unfold storeViolations
  split
  · exact ⟨rows, [], kept, by simp, .refl clock.Shows rows⟩
  · rename_i valid errors screened
    dsimp only
    split
    · exact ⟨rows, [], kept, by simp, .refl clock.Shows rows⟩
    · rw [known]
      obtain ⟨n, -, upserted, -⟩ := storeBatches_upserted clock ⟨0, 0, errors⟩
        (batches k.batchSize valid) rows
      refine ⟨_, _, rfl, fun f hf => ?_, upserted⟩
      obtain ⟨item, hitem, rfl⟩ := List.mem_map.mp hf
      rw [← (screen_eq_ok screened).1]
      exact List.mem_map.mpr ⟨item, mem_of_mem_take_batches hitem, rfl⟩

/-- a batch stored to its end -/
theorem storeViolations_eq_ok {k : StoreSettings} {clock clock' : Clock} {s t : Store}
    {r : StoreResult} {rows : List ViolationRow} (sized : 0 < k.batchSize)
    (known : s.violations = some rows) (h : storeViolations k clock vs s = (.ok r, t, clock')) :
    ∃ rows', t = { s with violations := some rows' } ∧
      Upserted clock.Shows (Violation.acceptedPrints vs) rows rows' ∧
      rows.length + r.inserted = rows'.length ∧
      r.inserted + r.updated = vs.countP Violation.isAccepted ∧
      r.inserted + r.updated + r.errors.length = vs.length := by
  unfold storeViolations at h
  split at h
  · cases h
  · rename_i valid errors screened
    obtain ⟨prints, count, total⟩ := screen_eq_ok screened
    dsimp only at h
    split at h
    · rename_i none
      rw [List.isEmpty_iff] at none
      subst none
      cases h
      refine ⟨rows, by rw [← known], ?_, by simp, by simpa using count, by simpa using total⟩
      rw [← prints]
      exact .refl clock.Shows rows
    · rw [known] at h
      dsimp only at h
      obtain ⟨n, -, upserted, counts⟩ := storeBatches_upserted clock ⟨0, 0, errors⟩
        (batches k.batchSize valid) rows
      obtain ⟨stored, left⟩ := Prod.ext_iff.mp h
      have same := congrArg Prod.fst left
      obtain ⟨all, inserted, both, reported⟩ := counts r stored
      refine ⟨_, same.symm, ?_, by simpa using inserted, ?_, ?_⟩
      · rw [all, List.take_length] at upserted
        unfold printsIn at upserted
        rwa [flatten_batches sized, prints] at upserted
      · rw [flatten_batches sized] at both
        dsimp only at both
        omega
      · rw [flatten_batches sized] at both
        dsimp only at both
        rw [reported]
        dsimp only
        omega

end Store

end LintLedger
