import LintLedger.Proofs.Store.Lifecycle
import Mathlib

/-!
# Tables that stay

A store that comes about from an empty one has all of its tables (`Reached.isWhole`), since no request
loses one, however it ends (`Step.isWhole`).  So whatever needs no more than tables does not fail on it.
-/

namespace LintLedger.Store

open Outcome

/-- whether no table of a store has been lost -/
structure IsWhole (s : Store) : Prop where
  violations : s.violations.isSome
  history : s.history.isSome
  checks : s.checks.isSome
  schedules : s.schedules.isSome
  metrics : s.metrics.isSome

variable {k : StoreSettings} {clock : Clock} {now : Instant} {s t : Store} {request : Request}

theorem IsWhole.empty : IsWhole .empty := ⟨rfl, rfl, rfl, rfl, rfl⟩

theorem IsWhole.whole {α : Type} {answer : α → Answer} {change : Except Failure (α × Store)} (h : s.IsWhole)
    (kept : ∀ a t, change = .ok (a, t) → t.IsWhole) : (whole s answer change).2.IsWhole := by
  rcases whole_snd with same | ⟨a, t, done, same⟩
  · rwa [same]
  · rw [same]
    exact kept a t done

theorem IsWhole.silent {change : Except Failure Store} (h : s.IsWhole)
    (kept : ∀ t, change = .ok t → t.IsWhole) : (silent s change).2.IsWhole := by
  refine h.whole fun a t done => ?_
  obtain ⟨u, changed, same⟩ := map_eq_ok.mp done
  cases same
  exact kept _ changed

/-- violations that are stored, to the end or not, leave all tables there -/
theorem IsWhole.stored (h : s.IsWhole) (k : StoreSettings) (clock : Clock) (vs : List Violation) :
    (storeViolations k clock vs s).2.1.IsWhole := by
  obtain ⟨rows, known⟩ := Option.isSome_iff_exists.mp h.violations
  obtain ⟨rows', -, left, -, -⟩ := storeViolations_upserted k clock vs known
  rw [left]
  exact { h with violations := rfl }

theorem IsWhole.interrupted (h : s.IsWhole) (n : Nat) (vs : List Violation) :
    (interrupted k clock n vs s).IsWhole := by
  unfold Store.interrupted
  split
  · exact { h with violations := rfl }
  · exact h

/-- no request loses a table, however it ends -/
theorem Step.isWhole (step : Step k clock s request t) (h : s.IsWhole) : t.IsWhole := by
  cases step with
  | undone => exact h
  | cutShort n vs => exact h.interrupted n vs
  | answered =>
    cases request with
    | store vs => exact h.stored k clock vs
    | resolve prints =>
      refine h.whole fun n t done => ?_
      rcases resolveViolations_eq_ok done with rfl | ⟨rows, -, rfl⟩
      · exact h
      · exact { h with violations := rfl }
    | recordDeltas check prints =>
      refine h.whole fun d t done => ?_
      obtain ⟨rows, -, -, ⟨-, rfl⟩ | ⟨history, number, -, -, rfl⟩⟩ := recordDeltas_eq_ok done
      · exact h
      · exact { h with history := rfl }
    | startCheck rule engine =>
      refine h.whole fun id t done => ?_
      obtain ⟨rows, row, -, -, -, rfl⟩ := startCheck_eq_ok done
      exact { h with checks := rfl }
    | completeCheck check found ms =>
      refine h.silent fun t done => ?_
      obtain ⟨rows, rows', -, -, rfl⟩ := completeCheck_eq_ok done
      exact { h with checks := rfl }
    | failCheck check error ms =>
      refine h.silent fun t done => ?_
      obtain ⟨rows, rows', -, -, rfl⟩ := failCheck_eq_ok done
      exact { h with checks := rfl }
    | saveSchedules priority entries =>
      refine h.silent fun t done => ?_
      obtain ⟨rows, stays, rfl⟩ := saveSchedules_eq_ok done
      exact { h with schedules := stays h.schedules }
    | recordMetric kind value unit context =>
      refine h.silent fun t done => ?_
      obtain ⟨rows, stays, rfl⟩ := recordMetric_eq_ok done
      exact { h with metrics := stays h.metrics }
    | cleanup days =>
      refine h.whole fun result t done => ?_
      obtain ⟨limit, history, rows, metrics, -, -, rfl⟩ := cleanup_eq_ok done
      exact { h with history := rfl, violations := rfl, metrics := rfl }
    | _ => exact h

theorem Reached.isWhole (h : Reached s now) : s.IsWhole := by
  induction h with
  | empty => exact .empty
  | step _ _ step ih => exact step.isWhole ih

end LintLedger.Store
