import LintLedger.Store.Request

/-!
# Rows as records

Rows of the store under the names of their columns, and what is asked of the store under names of
its own.
-/

namespace LintLedger

/-- a moment -/
def Instant.record (t : Instant) : Value := .text t.text

/-- an optional moment -/
def momentRecord : Option Instant → Value
  | none => .null
  | some t => t.record

/-- a stored violation -/
def ViolationRow.record (r : ViolationRow) : Value :=
  .record [("fingerprint", .text r.fingerprint), ("file_path", .text r.file),
    ("line_number", .int r.line), ("column_number", .ofInt? r.column),
    ("message", .text r.message), ("code_snippet", .text r.code), ("category", .text r.category),
    ("severity", .text r.severity), ("source", .text r.source), ("rule_id", .ofText? r.rule),
    ("fix_suggestion", .ofText? r.fix), ("first_seen_at", r.firstSeen.record),
    ("last_seen_at", r.lastSeen.record), ("resolved_at", momentRecord r.resolvedAt),
    ("status", .text r.status.name)]

/-- a row of history -/
def HistoryRow.record (r : HistoryRow) : Value :=
  .record [("id", .int r.id), ("check_id", .int r.check), ("fingerprint", .text r.fingerprint),
    ("action", .text r.action.name), ("recorded_at", r.recordedAt.record)]

/-- a check -/
def CheckRow.record (r : CheckRow) : Value :=
  .record [("id", .int r.id), ("rule_id", .text r.rule), ("engine", .text r.engine),
    ("status", .text r.status.name), ("started_at", r.startedAt.record),
    ("completed_at", momentRecord r.completedAt), ("violations_found", .int r.found),
    ("execution_time_ms", .int r.milliseconds), ("error_message", .ofText? r.error)]

/-- what is kept of a schedule -/
def ScheduleRow.record (r : ScheduleRow) : Value :=
  .record [("id", .int r.id), ("rule_id", .text r.rule), ("engine", .text r.engine),
    ("enabled", .bool r.enabled), ("priority", .int r.priority),
    ("zero_streak", .int r.zeroStreak), ("last_checked_cycle", .int r.lastChecked)]

/-- a measurement -/
def MetricRow.record (r : MetricRow) : Value :=
  .record [("id", .int r.id), ("metric_type", .text r.kind), ("value", .float r.value),
    ("unit", .text r.unit), ("context", r.context), ("recorded_at", r.recordedAt.record)]

/-- whether a fingerprint comes no later than another -/
def ViolationRow.isPrintedUpTo (a b : ViolationRow) : Bool := !(b.fingerprint < a.fingerprint)

/-- the rows of a table in the order of their keys, if the table is there -/
def Store.records? (s : Store) : TableName → Option (List Value)
  | .violations => s.violations.map fun rows =>
      (rows.mergeSort ViolationRow.isPrintedUpTo).map (·.record)
  | .history => s.history.map fun rows => rows.map (·.record)
  | .checks => s.checks.map fun rows => rows.map (·.record)
  | .schedules => s.schedules.map fun rows => rows.map (·.record)
  | .metrics => s.metrics.map fun rows => rows.map (·.record)

/-- what came of storing violations -/
def StoreResult.record (r : StoreResult) : Value :=
  .record [("inserted", .int r.inserted), ("updated", .int r.updated),
    ("errors", .list (r.errors.map .text))]

/-- how many fingerprints came, went and stayed -/
def Delta.counts (d : Delta) : Value :=
  .record [("added", .int d.added.length), ("removed", .int d.removed.length),
    ("unchanged", .int d.unchanged.length)]

/-- the fingerprints that came, went and stayed, under the number of their check -/
def Delta.fields (d : Delta) (check : Value) : List (String × Value) :=
  [("check_id", check), ("added", .list (d.added.map .text)),
    ("removed", .list (d.removed.map .text)), ("unchanged", .list (d.unchanged.map .text))]

/-- active violations that have much in common -/
def SummaryItem.record (i : SummaryItem) : Value :=
  .record [("rule_id", .ofText? i.rule), ("category", .text i.category),
    ("severity", .text i.severity), ("source", .text i.source), ("count", .int i.count),
    ("affected_files", .int i.files), ("first_occurrence", i.firstSeen.record),
    ("last_occurrence", i.lastSeen.record)]

/-- how a rule performs -/
def RulePerformance.record (p : RulePerformance) : Value :=
  .record [("rule_id", .text p.rule), ("engine", .text p.engine), ("total_runs", .int p.runs),
    ("successful_runs", .int p.completed), ("failed_runs", .int p.failed),
    ("avg_execution_time_ms", .float p.averageMilliseconds),
    ("avg_violations_found", .float p.averageFound), ("last_run_at", p.lastRun.record),
    ("zero_streak", .int p.zeroStreak)]

/-- names with their counts -/
def Tally.record (t : Tally) : Value := .record (t.map fun e => (e.1, .int e.2))

/-- all that a display needs -/
def Dashboard.record (d : Dashboard) : Value :=
  .record [("active_violations", .int d.active), ("total_files_affected", .int d.files),
    ("by_severity", Tally.record d.bySeverity), ("by_source", Tally.record d.bySource),
    ("by_category", Tally.record d.byCategory), ("summary", .list (d.summary.map (·.record))),
    ("rule_performance", .list (d.performance.map (·.record))),
    ("recent_history", .list (d.history.map (·.record))),
    ("last_check_time", momentRecord d.lastCheck)]

/-- how many rows there are -/
def StoreStats.record (s : StoreStats) : Value :=
  .record [("total_violations", .int s.violations), ("active_violations", .int s.active),
    ("resolved_violations", .int s.resolved), ("total_rule_checks", .int s.checks),
    ("total_history_records", .int s.history), ("total_metrics", .int s.metrics)]

/-- how much has been removed -/
def CleanupResult.record (r : CleanupResult) : Value :=
  .record [("history_deleted", .int r.history), ("resolved_deleted", .int r.resolved),
    ("metrics_deleted", .int r.metrics)]

/-- what is kept of the schedule of a rule -/
def SavedState.record (s : SavedState) : Value :=
  .record [("rule_id", s.rule), ("engine", .text s.engine), ("zero_streak", .int s.zeroStreak),
    ("last_checked_cycle", .int s.lastChecked)]

/-- the first and the last of some values -/
def endsRecord : List Value → Value
  | [] => .list []
  | v :: rest => .list [v, rest.getLastD v]

/-- what a store answers -/
def Store.Answer.record : Store.Answer → Value
  | .done => .null
  | .stored r => r.record
  | .count n => .int n
  | .delta check d => .record (d.fields check ++ [("counts", d.counts)])
  | .number id => .int id
  | .removed r => r.record
  | .violations rows => .list (rows.map (·.record))
  | .history rows => .list (rows.map (·.record))
  | .schedules kept => .list (kept.map (·.record))
  | .summary items => .list (items.map (·.record))
  | .performance items => .list (items.map (·.record))
  | .dashboard board => board.record
  | .stats s => s.record

/-- what a store answers in brief: of changes and of rows only how many there are -/
def Store.Answer.brief : Store.Answer → Value
  | .delta _ d => d.counts
  | .violations rows =>
    .record [("count", .int rows.length), ("lines", endsRecord (rows.map fun r => .int r.line))]
  | .history rows =>
    .record [("count", .int rows.length), ("ids", endsRecord (rows.map fun r => .int r.id))]
  | answer => answer.record

end LintLedger
