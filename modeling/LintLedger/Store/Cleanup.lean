import LintLedger.Store.Violations

/-!
# Cleaning up

History, resolved violations and measurements are removed once they are older than a number of days.
What is active is never removed, nor is anything that was written at the very moment of the limit.
-/

namespace LintLedger

/-- how much has been removed -/
structure CleanupResult where
  history : Nat
  resolved : Nat
  metrics : Nat
deriving Repr, DecidableEq, Inhabited

/-- the most days that can be counted -/
def mostDays : Int := 999999999

/-- a number of days in microseconds, rounded to the nearest; halves go to the even neighbour -/
def daysLength : Value → Except Failure Int
  | .bool b => .ok (if b then Instant.dayLength else 0)
  | .int i => .ok (i * Instant.dayLength)
  | .float x => do
    let whole ← orFail (integerOfFloat x)
    let rest := x - Float.ofInt whole
    let part ← orFail (Amount.roundFloat (rest * Float.ofNat Instant.dayLength))
    return whole * Instant.dayLength + part
  | v => .error (.fault (.notDays v.kind))

/-- the moment that lies a number of days before another -/
def Instant.before (now : Instant) (days : Value) : Except Failure Instant := do
  let length ← daysLength days
  let whole := length.fdiv Instant.dayLength
  if whole < -(Decimal.twoTo 31 : Int) || Decimal.twoTo 31 ≤ whole then throw (.beyondDays whole)
  if whole < -mostDays || mostDays < whole then throw (.tooManyDays whole)
  match now.shift? (-length) with
  | some t => return t
  | none => throw .beyondCalendar

/-- whether a moment lies before a limit -/
def Instant.isBefore (t limit : Instant) : Bool := t.micros < limit.micros

/-- whether a violation was resolved before a limit -/
def ViolationRow.isStale (limit : Instant) (r : ViolationRow) : Bool :=
  r.status = .resolved && (r.resolvedAt.getD r.lastSeen).isBefore limit

namespace Store

/-- what is older than a number of days removed, or than the store's own limit if none is given -/
def cleanup (k : StoreSettings) (now : Instant) (days : Option Value) (s : Store) :
    Except Failure (CleanupResult × Store) := do
  let limit ← now.before (days.getD (.int k.historyDays))
  let history ← need .cleanup s.history
  let violations ← need .cleanup s.violations
  let metrics ← need .cleanup s.metrics
  let oldHistory := fun (r : HistoryRow) => r.recordedAt.isBefore limit
  let oldMetric := fun (r : MetricRow) => r.recordedAt.isBefore limit
  let result : CleanupResult :=
    ⟨history.countP oldHistory, violations.countP (·.isStale limit), metrics.countP oldMetric⟩
  return (result, { s with
    history := some (history.filter fun r => !oldHistory r)
    violations := some (violations.filter fun r => !r.isStale limit)
    metrics := some (metrics.filter fun r => !oldMetric r) })

end Store

end LintLedger
