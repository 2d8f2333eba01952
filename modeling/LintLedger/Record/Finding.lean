import LintLedger.Analyzer
import LintLedger.Crossover
import LintLedger.Findings.Summary

/-!
# Findings as records

Findings, warnings, counts and reports as values under the names by which a reader of records knows
them.
-/

namespace LintLedger

/-- texts as values -/
def textsRecord (texts : List String) : Value := .list (texts.map .text)

/-- a finding -/
def Violation.record (v : Violation) : Value :=
  .record [("file", v.file), ("line", v.line), ("column", v.column), ("code", v.code),
    ("category", v.categoryValue), ("severity", v.severityValue), ("source", v.sourceValue),
    ("rule", v.rule), ("message", v.message), ("fix_suggestion", v.fix)]

/-- findings in their order -/
def Violation.records (vs : List Violation) : Value := .list (vs.map record)

/-- a warning -/
def Crossover.Warning.record (w : Crossover.Warning) : Value :=
  .record [("type", .text w.kind.name), ("severity", .text w.severity.name),
    ("message", .text w.message), ("details", .text w.details),
    ("suggestion", .text w.suggestion), ("affected_rules", textsRecord w.rules),
    ("affected_files", .list w.files)]

/-- names with their counts, as pairs, since their order counts -/
def Findings.countPairs (counts : Counts) : Value :=
  .list (counts.map fun c => .list [.text c.1, .int c.2])

/-- what is told of a batch of findings -/
def Findings.Summary.record (s : Findings.Summary) : Value :=
  .record [("total", .int s.total), ("by_severity", countPairs s.bySeverity),
    ("by_source", countPairs s.bySource), ("by_category", countPairs s.byCategory),
    ("top_files", .list (s.topFiles.map fun c => .list [c.1, .int c.2])),
    ("errors", textsRecord s.errors)]

/-- the rule that was checked last, if one was -/
def ruleRecord : Option Rule → Value
  | none => .null
  | some r => r.value

/-- what is told of a schedule -/
def ScheduleStatus.record (s : ScheduleStatus) : Value :=
  .record [("last_checked_rule", ruleRecord s.lastRule), ("progress", .text s.progress),
    ("adaptive_rules", .int s.backedOff), ("total_checks", .int s.cycle)]

/-- what is noted of a run -/
def RunNotes.record : RunNotes → Value
  | .settled target found schedule =>
    .record ([("target_path", .text target), ("violations_found", .int found)]
      ++ match schedule with
        | some s => [("checked_rule", ruleRecord s.lastRule),
            ("round_robin_progress", .text s.progress), ("adaptive_rules", .int s.backedOff)]
        | Option.none => [])
  | .failed target timedOut =>
    .record [("target_path", .text target), ("failure_recovery", .bool true),
      ("timed_out", .bool timedOut)]
  | .none => .record []

/-- a report whose findings are shown in a way of their own -/
def Report.recordWith (r : Report) (findings : List Violation → Value) : Except Fault Value := do
  let milliseconds ← r.elapsed.milliseconds
  return .record [("engine_name", .text r.engine), ("success", .bool r.success),
    ("error", .ofText? r.error), ("execution_time_ms", .int milliseconds),
    ("metadata", r.notes.record), ("violations", findings r.violations)]

/-- an optional double -/
def doubleRecord : Option Float → Value
  | none => .null
  | some x => .float x

/-- what is told of an analyzer, with its schedule if it has one and `full` asks for it -/
def Analyzer.record (a : Analyzer) (full : Bool) : Value :=
  .record ([("name", .text a.name), ("source", .text a.source.name),
    ("enabled", .bool a.settings.enabled), ("priority", .int a.settings.priority),
    ("allow_failure", .bool a.settings.allowFailure),
    ("timeout", doubleRecord a.settings.timeout)]
    ++ match a.schedule? with
      | some s => if full then [("schedule", s.status.record)] else []
      | none => [])

/-- the state of a schedule -/
def Schedule.stateRecord (s : Schedule) : Value :=
  .record [("rules", .list (s.rules.map (·.value))), ("cycle", .int s.cycle),
    ("status", s.status.record),
    ("entries", .list (s.saved.map fun e =>
      .list [e.rule, .text e.engine, .int e.zeroStreak, .int e.lastChecked]))]

/-- what was asked of a tool -/
def ToolRequest.record (r : ToolRequest) : Value :=
  .record [("args", textsRecord r.arguments), ("timeout", r.timeout)]

/-- what a tool left behind -/
def ToolOutput.record (o : ToolOutput) : Value :=
  .record [("stdout", .text o.stdout), ("stderr", .text o.stderr), ("returncode", .int o.status)]

end LintLedger
