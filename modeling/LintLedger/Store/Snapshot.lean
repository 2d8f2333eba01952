import LintLedger.Record.Row

/-!
# Snapshots

A whole store as one value, table by table under their names, and a store from such a value.  A table
that has been lost is written as nothing.
-/

namespace LintLedger.Store

/-- a whole store -/
def snapshot (s : Store) : Value :=
  .record (TableName.all.map fun t =>
    (t.name, match s.records? t with
      | some rows => .list rows
      | none => .null))

/-- the text under a name -/
def textIn? (v : Value) (name : String) : Option String :=
  match v with
  | .map es => match Value.find? es name with
    | some (.text s) => some s
    | _ => none
  | _ => none

/-- the whole number under a name -/
def wholeIn? (v : Value) (name : String) : Option Int :=
  match v with
  | .map es => match Value.find? es name with
    | some (.int i) => some i
    | _ => none
  | _ => none

/-- the moment under a name -/
def momentIn? (v : Value) (name : String) : Option Instant := (textIn? v name).bind Instant.parse?

/-- the value under a name -/
def valueIn (v : Value) (name : String) : Value :=
  match v with
  | .map es => (Value.find? es name).getD .null
  | _ => .null

/-- the violation of a record -/
def violationOf? (v : Value) : Option ViolationRow := do
  return {
    fingerprint := ← textIn? v "fingerprint"
    file := ← textIn? v "file_path"
    line := ← wholeIn? v "line_number"
    column := wholeIn? v "column_number"
    message := ← textIn? v "message"
    code := ← textIn? v "code_snippet"
    category := ← textIn? v "category"
    severity := ← textIn? v "severity"
    source := ← textIn? v "source"
    rule := textIn? v "rule_id"
    fix := textIn? v "fix_suggestion"
    firstSeen := ← momentIn? v "first_seen_at"
    lastSeen := ← momentIn? v "last_seen_at"
    resolvedAt := momentIn? v "resolved_at"
    status := if textIn? v "status" = some ViolationStatus.resolved.name then .resolved else .active }

/-- the row of history of a record -/
def historyOf? (v : Value) : Option HistoryRow := do
  return {
    id := ← wholeIn? v "id"
    check := ← wholeIn? v "check_id"
    fingerprint := ← textIn? v "fingerprint"
    action := ← (textIn? v "action").bind DeltaAction.ofName?
    recordedAt := ← momentIn? v "recorded_at" }

/-- the status of a check of a name -/
def checkStatusOf? (name : String) : Option CheckStatus :=
  [CheckStatus.running, .completed, .failed].find? fun s => s.name = name

/-- the check of a record -/
def checkOf? (v : Value) : Option CheckRow := do
  return {
    id := ← wholeIn? v "id"
    rule := ← textIn? v "rule_id"
    engine := ← textIn? v "engine"
    status := ← (textIn? v "status").bind checkStatusOf?
    startedAt := ← momentIn? v "started_at"
    completedAt := momentIn? v "completed_at"
    found := ← wholeIn? v "violations_found"
    milliseconds := ← wholeIn? v "execution_time_ms"
    error := textIn? v "error_message" }

/-- the schedule of a record -/
def scheduleOf? (v : Value) : Option ScheduleRow := do
  return {
    id := ← wholeIn? v "id"
    rule := ← textIn? v "rule_id"
    engine := ← textIn? v "engine"
    enabled := (valueIn v "enabled").truthy
    priority := ← wholeIn? v "priority"
    zeroStreak := ← wholeIn? v "zero_streak"
    lastChecked := ← wholeIn? v "last_checked_cycle" }

/-- the measurement of a record -/
def metricOf? (v : Value) : Option MetricRow := do
  return {
    id := ← wholeIn? v "id"
    kind := ← textIn? v "metric_type"
    value := ← (valueIn v "value").toFloat.toOption
    unit := ← textIn? v "unit"
    context := valueIn v "context"
    recordedAt := ← momentIn? v "recorded_at" }

/-- the table under a name, lost if nothing is written there -/
def tableIn? {α : Type} (row : Value → Option α) (v : Value) (t : TableName) :
    Option (Table α) :=
  match valueIn v t.name with
  | .list rows => (rows.mapM row).map some
  | .null => some none
  | _ => none

/-- the store of a snapshot -/
def ofSnapshot? (v : Value) : Option Store := do
  return {
    violations := ← tableIn? violationOf? v .violations
    history := ← tableIn? historyOf? v .history
    checks := ← tableIn? checkOf? v .checks
    schedules := ← tableIn? scheduleOf? v .schedules
    metrics := ← tableIn? metricOf? v .metrics }

end LintLedger.Store
