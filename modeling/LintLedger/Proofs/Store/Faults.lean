import LintLedger.Proofs.Store.Checks
import LintLedger.Proofs.Store.Screening
import LintLedger.Store.Metrics
import Mathlib

/-!
# What fails only with the store

As long as the numbers that are to be written fit, a part of the store's work fails only if the store
itself does: a table is lost, or what has been given cannot be kept in it.  Any such failure is of one
kind, whatever was asked.
-/

namespace LintLedger

open Outcome

namespace Store

variable {k : StoreSettings} {clock : Clock} {now : Instant} {s t : Store} {row : CheckRow}
  {more : Nat} {f : Failure} {vs : List Violation}

/-! ### What fails only with the store -/

theorem need_kind {α : Type} {action : StoreAction} {table : Table α} (h : need action table = .error f) :
    f.kind = .storage := by
  cases table <;> cases h
  rfl

theorem textColumn_kind {action : StoreAction} {v : Value} (whole : ∀ i, v = .int i → fits i)
    (h : textColumn action v = .error f) : f.kind = .storage := by
  unfold textColumn at h
  rcases bind_eq_error.mp h with unwritten | ⟨written, -, h⟩
  · cases v with
    | int i =>
      have fitting : wholeColumn i = .ok i := if_pos (whole i rfl)
      change (wholeColumn i).map _ = _ at unwritten
      rw [fitting] at unwritten
      cases unwritten
    | list vs =>
      cases unwritten
      rfl
    | map es =>
      cases unwritten
      rfl
    | _ => cases unwritten
  · cases written with
    | none =>
      cases h
      rfl
    | some s => cases h

theorem startCheck_kind {rule : Value} {engine : String} (whole : ∀ i, rule = .int i → fits i)
    (h : startCheck now rule (.text engine) s = .error f) : f.kind = .storage := by
  unfold startCheck at h
  rcases bind_eq_error.mp h with lost | ⟨rows, -, h⟩
  · exact need_kind lost
  rcases bind_eq_error.mp h with unwritten | ⟨text, -, h⟩
  · exact textColumn_kind whole unwritten
  cases h

theorem recordDeltas_kind {check : Int} {prints : List String} (whole : fits check)
    (h : recordDeltas now (.int check) prints s = .error f) : f.kind = .storage := by
  unfold recordDeltas at h
  rcases bind_eq_error.mp h with lost | ⟨rows, -, h⟩
  · exact need_kind lost
  dsimp only at h
  split at h
  · cases h
  rcases bind_eq_error.mp h with lost | ⟨history, -, h⟩
  · exact need_kind lost
  rw [countColumn_of_fits whole] at h
  cases h

theorem recordMetric_kind {kind unit : String} {x : Float} {context : Value}
    (h : recordMetric k now (.text kind) (.float x) (.text unit) context s = .error f) :
    f.kind = .storage := by
  unfold recordMetric at h
  split at h
  · cases h
  rcases bind_eq_error.mp h with none | ⟨number, -, h⟩
  · cases none
  rcases bind_eq_error.mp h with lost | ⟨rows, -, h⟩
  · exact need_kind lost
  rcases bind_eq_error.mp h with unwritten | ⟨text, -, h⟩
  · exact textColumn_kind (fun i hi => by cases hi) unwritten
  dsimp only at h
  split at h
  · cases h
    rfl
  rcases bind_eq_error.mp h with unwritten | ⟨text, -, h⟩
  · exact textColumn_kind (fun i hi => by cases hi) unwritten
  cases h

/-! ### Storing -/

/-- storing touches no table but that of the violations -/
theorem exists_storeViolations_snd (k : StoreSettings) (clock : Clock) (vs : List Violation) (s : Store) :
    ∃ rows, (storeViolations k clock vs s).2.1 = { s with violations := rows } := by
  unfold storeViolations
  split
  · exact ⟨s.violations, rfl⟩
  dsimp only
  split
  · exact ⟨s.violations, rfl⟩
  split <;> exact ⟨_, rfl⟩

theorem storeViolations_kind (storable : ∀ v ∈ vs, v.IsStorable)
    (h : (storeViolations k clock vs s).1 = .error f) : f.kind = .storage := by
  obtain ⟨valid, errors, screened⟩ := exists_screen_of_isStorable storable
  cases known : s.violations with
  | none =>
    unfold storeViolations at h
    rw [screened, known] at h
    dsimp only at h
    split at h
    · cases h
    · cases h
      rfl
  | some rows =>
    rw [storeViolations_of_screen known screened] at h
    have writable : ∀ item ∈ (batches k.batchSize valid).flatten, ∀ now,
        ∃ row, newRow now item.1 item.2 = .ok row :=
      fun item hitem now => exists_newRow_of_screen storable screened (mem_of_mem_batches hitem) now
    obtain ⟨r, stored⟩ : ∃ r,
        (storeBatches clock ⟨0, 0, errors⟩ (batches k.batchSize valid) rows).1 = .ok r :=
      (exists_storeBatches_eq_ok_iff (P := fun _ => True) fun item hitem now =>
        iff_of_true (writable item hitem now) trivial).mpr fun _ _ => trivial
    rw [stored] at h
    cases h

/-! ### Ending a check -/

/-- a check that ends well can be written as such if its numbers fit -/
theorem completeCheck_eq {check found milliseconds : Int} (hfound : fits found)
    (htime : fits milliseconds) :
    completeCheck now check (.int found) (.int milliseconds) = changeCheck .completeCheck check fun r =>
      .ok { r with
        status := .completed
        completedAt := some now
        found := found
        milliseconds := milliseconds } := by
  unfold completeCheck
  rw [countColumn_of_fits hfound, countColumn_of_fits htime]
  rfl

/-- and so can one that failed -/
theorem failCheck_eq {check milliseconds : Int} {why : String} (htime : fits milliseconds) :
    failCheck now check (.text why) (.int milliseconds) = changeCheck .failCheck check fun r =>
      .ok { r with
        status := .failed
        completedAt := some now
        milliseconds := milliseconds
        error := some why } := by
  unfold failCheck
  rw [countColumn_of_fits htime]
  rfl

end Store

end LintLedger
