import LintLedger.Amount
import LintLedger.Schedule

/-!
# Reports

What comes back from one run of one analyzer: its findings, or why there are none.
-/

namespace LintLedger

/-- what is noted of a run beside its findings -/
inductive RunNotes where
  /-- a run whose findings were taken over, and the schedule it went by -/
  | settled (target : String) (found : Nat) (schedule : Option ScheduleStatus)
  /-- a run that failed, and whether it was cut off -/
  | failed (target : String) (timedOut : Bool)
  /-- nothing -/
  | none
deriving Inhabited

/-- the outcome of one run of one analyzer -/
structure Report where
  engine : String
  violations : List Violation
  elapsed : Amount
  success : Bool
  error : Option String
  notes : RunNotes
deriving Inhabited

namespace Report

/-- why a run failed, as far as that is known -/
def failure (r : Report) : String :=
  match r.error with
  | some s => if s = "" then "failed" else s
  | none => "failed"

/-- the rule that a run went by, if it went by one -/
def checkedRule? (r : Report) : Option Value :=
  match r.notes with
  | .settled _ _ (some status) => status.lastRule.map (·.value)
  | _ => none

end Report

end LintLedger
