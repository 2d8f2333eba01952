import LintLedger.Failure
import LintLedger.Host.Run
import LintLedger.Text.Lines

/-!
# Tools

Starting an external tool and taking up what it leaves behind.  A tool that is not there fails with
status 127, one that is there but is no program cannot be started, and one that does not end in time with status 124; a run that has been called off fails
before any deadline is looked at.  Whether a run still goes on is looked up twenty times a second.
-/

namespace LintLedger

/-- what is asked of a tool: its command, and the seconds that it may take as they were set -/
structure ToolRequest where
  arguments : List String
  timeout : Value
deriving Inhabited

/-- how a run of a tool ended, how long it took, and whether it has been called off by then -/
structure ToolResult where
  outcome : Except Failure ToolOutput
  seconds : Rat := 0
  cancelled : Bool := false

/-- a run that is known beforehand, and whether it is called off while it goes on -/
structure KnownRun where
  outcome : Except Failure ToolOutput
  cancels : Bool := false

/-- what runs tools -/
inductive Runner where
  /-- a host that sees files and has a folder in which tools run, if that folder is there -/
  | host (files : Directory) (folder : Path)
  /-- runs that are known beforehand, of which the last goes on for ever, and what has been asked -/
  | known (runs : List KnownRun) (asked : List ToolRequest)
deriving Inhabited

namespace Tool

/-- the seconds that a run may take -/
def deadline? : Value → Except Fault (Option Float)
  | .null => .ok none
  | v => if v.isNumber then v.toFloat.map some else .error (.notAddable v.kind)

/-- the first moment at which a run past its deadline is seen, in seconds -/
def firstCheck (limit : Rat) : Rat :=
  if limit ≤ 0 then 0 else ((limit * 20).ceil : Rat) / 20

/-- whether a run of some seconds is seen past a deadline; every run takes some time -/
def isOverdue (limit : Float) (seconds : Rat) : Bool :=
  match Decimal.rational? limit with
  | some q =>
    let check := firstCheck q
    check < seconds || check = 0
  | none => limit < 0

/-- output in which every line ends in a line feed -/
def unified (o : ToolOutput) : ToolOutput :=
  { o with
    stdout := String.ofList (Text.unifyNewlines o.stdout.toList)
    stderr := String.ofList (Text.unifyNewlines o.stderr.toList) }

/-- the failure of a tool that is not there -/
def absent (name : String) : Failure :=
  .tool name (name ++ " is not installed or not in PATH") 127

/-- the failure of a tool that did not end in time -/
def overdue (name : String) (limit : Float) : Failure :=
  .tool name ("Command timed out after " ++ Decimal.general limit ++ "s") 124

/-- a run on a host -/
def onHost (files : Directory) (folder : Path) (r : ToolRequest) (cancelled : Bool) : ToolResult :=
  match r.arguments with
  | [] => { outcome := .error .emptyCommand, cancelled := cancelled }
  | name :: _ =>
    if r.arguments.any fun a => a.toList.contains '\x00' then
      { outcome := .error .badPath, cancelled := cancelled }
    else if !files.hasFolder folder then
      { outcome := .error (absent name), cancelled := cancelled }
    else if Host.isBarred files folder r.arguments then
      { outcome := .error (.barred name), cancelled := cancelled }
    else
      match Host.run? files folder r.arguments with
      | none => { outcome := .error (absent name), cancelled := cancelled }
      | some run =>
        match deadline? r.timeout with
        | .error f => { outcome := .error (.fault f), cancelled := cancelled }
        | .ok limit =>
          if cancelled then { outcome := .error (.cancelled name), cancelled := true }
          else
            match limit with
            | some x =>
              if isOverdue x run.seconds then
                { outcome := .error (overdue name x), seconds := firstCheck
                    ((Decimal.rational? x).getD 0) }
              else { outcome := .ok (unified run.output), seconds := run.seconds }
            | none => { outcome := .ok (unified run.output), seconds := run.seconds }

end Tool

namespace Runner

/-- a run of a tool -/
def run (r : Runner) (request : ToolRequest) (cancelled : Bool) : ToolResult × Runner :=
  match r with
  | host files folder => (Tool.onHost files folder request cancelled, r)
  | known runs asked =>
    let asked := asked ++ [request]
    match runs with
    | [] => ({ outcome := .ok ⟨"", "", 0⟩, cancelled := cancelled }, known [] asked)
    | [last] =>
      ({ outcome := last.outcome, cancelled := cancelled || last.cancels }, known [last] asked)
    | first :: rest =>
      ({ outcome := first.outcome, cancelled := cancelled || first.cancels }, known rest asked)

/-- what a runner of known runs has been asked so far -/
def asked : Runner → List ToolRequest
  | host _ _ => []
  | known _ asked => asked

end Runner

end LintLedger
