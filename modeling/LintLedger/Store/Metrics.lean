import LintLedger.Store.Violations

/-!
# Measurements

A measurement has a kind, a value with a unit, and whatever else is worth knowing of it.  A store may
keep none of them.
-/

namespace LintLedger.Store

/-- a measurement written down, if measurements are kept -/
def recordMetric (k : StoreSettings) (now : Instant) (kind value unit context : Value)
    (s : Store) : Except Failure Store := do
  if !k.metrics then return s
  let action := StoreAction.recordMetric
  let value ← orFail value.toFloat
  let rows ← need action s.metrics
  let kind ← textColumn action kind
  if value.isNaN then throw (.store action)
  let unit ← textColumn action unit
  let row : MetricRow := ⟨nextId MetricRow.id rows, kind, value, unit, context, now⟩
  return { s with metrics := some (rows ++ [row]) }

end LintLedger.Store
