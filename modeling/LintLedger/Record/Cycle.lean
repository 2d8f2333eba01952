import LintLedger.Engine.Cycle
import LintLedger.Record.Finding
import LintLedger.Record.Row

/-!
# Analyses as records

What came of an analysis, of a cycle, and of one that failed.
-/

namespace LintLedger

/-- an analysis; of each report only the number of its findings -/
def Analysis.record (a : Analysis) : Except Fault Value := do
  let reports ← a.reports.mapM fun r => r.recordWith fun vs => .int vs.length
  return .record [("violations", Violation.records a.violations),
    ("engine_results", .list reports), ("summary", a.summary.record),
    ("warnings", .list (a.warnings.map (·.record))), ("has_errors", .bool a.hasErrors),
    ("failed_engines", textsRecord a.failedEngines), ("exit_code", .int a.exitCode)]

/-- a cycle -/
def Cycle.record (c : Cycle) : Except Fault Value := do
  let analysis ← c.analysis.record
  return .record [("analysis", analysis), ("check_id", .int c.check), ("store", c.stored.record),
    ("delta", .record (c.delta.fields (.int c.check))), ("counts", c.delta.counts),
    ("exit_code", .int c.analysis.exitCode)]

/-- an optional source -/
def sourceRecord : Option Source → Value
  | none => .null
  | some s => .text s.name

/-- the analyzers of an engine, in the order of their adding and by priority, and the sources that
count as that of the type analyzer and of the linter -/
def Engine.fields (e : Engine) : List (String × Value) :=
  [("adapters", textsRecord (e.analyzers.map (·.name))),
    ("ordered", textsRecord (e.ordered.map (·.name))),
    ("type_source", sourceRecord e.detector.typeSource),
    ("lint_source", sourceRecord e.detector.lintSource)]

/-- a thing that is wrong with settings -/
def Settings.Complaint.record (c : Settings.Complaint) : Value :=
  .record [("loc", .list c.place), ("type", .text c.expected.code),
    ("msg", .text c.expected.message)]

/-- a failure; of an analysis that failed the wording is given only if a single analyzer did -/
def Failure.record (f : Failure) : Value :=
  let kind := ("error", Value.text f.kind.name)
  match f with
  | .settings complaints => .record [kind, ("errors", .list (complaints.map (·.record)))]
  | .markup => .record [kind]
  | .analysis failures settled =>
    let rows := failures.map fun p => [p.1, p.2.kind.name, p.2.message]
    .record ([kind,
        ("failures", .list ((rows.mergeSort fun a b => !(b < a)).map textsRecord)),
        ("results", textsRecord (settled.map (·.engine)))]
      ++ if failures.length = 1 then [("message", .text f.message)] else [])
  | .crossover message warnings =>
    .record [kind, ("message", .text message), ("warnings", .list (warnings.map (·.record)))]
  | _ => .record [kind, ("message", .text f.message)]

/-- what a listener was told of a cycle: its number, or why it failed -/
def Watch.Event.record? : Watch.Event Cycle → Option Value
  | .told _ _ (some c) _ => some (.list [.text "cycle", .int c.check])
  | .told _ _ none (some f) => some (.list [.text "failed", .text f.kind.name])
  | _ => none

/-- the number of the check of a cycle, if there was one -/
def checkRecord (c : Option Cycle) : Value := .ofInt? (c.map (·.check))

/-- the state of a watch with what its listeners have been told -/
def Watch.fields (w : Watch Cycle) (events : List (Watch.Event Cycle)) : List (String × Value) :=
  [("cycles", .int w.cycles), ("failures", .int w.failures), ("busy", .bool w.busy),
    ("stopped", .bool w.stopped), ("events", .list (events.filterMap (·.record?))),
    ("last_error", .ofText? (w.lastFailure.map (·.kind.name))),
    ("last_check", checkRecord w.lastResult)]

end LintLedger
