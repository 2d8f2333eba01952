import LintLedger.Analyzer.Compiler
import LintLedger.Analyzer.Exports
import LintLedger.Analyzer.Linter
import LintLedger.Settings
import LintLedger.Violation.Normalize

/-!
# Analyzers

What every analyzer keeps to.  A run of it ends with findings in normal form and stamped with its own
source, or it fails; a failure is told in a report without findings if the analyzer may fail, and
stops the analysis otherwise.  A run that does not end in time is given up.
-/

namespace LintLedger

/-- how a run of an analyzer from outside ends -/
inductive Analyzer.Outcome where
  | finds (violations : List Violation)
  | fails (failure : Failure)
  /-- it does not end at all -/
  | hangs
deriving Inhabited

/-- how an analyzer finds what it finds -/
inductive Analyzer.Method where
  | compiler (runner : Runner)
  | linter (runner : Runner) (state : Analyzer.LintState)
  | exports (runner : Runner)
  /-- from outside, with the time that it says it took -/
  | outside (outcome : Analyzer.Outcome) (elapsed : Option Amount)
deriving Inhabited

/-- an analyzer -/
structure Analyzer where
  name : String
  source : Source
  settings : AnalyzerSettings
  method : Analyzer.Method
deriving Inhabited

namespace Analyzer

/-- the source that a value names -/
def sourceOf (v : Value) : Except Failure Source :=
  match v with
  | .text s => match Source.ofName? s with
    | some source => .ok source
    | none => .error (.unknownSource v)
  | _ => .error (.unknownSource v)

/-- the name of the type analyzer -/
def compilerName : String := "typescript"

/-- the name of the linter -/
def linterName : String := "eslint"

/-- the name of the detector of unused exports -/
def exportsName : String := "unused-exports"

/-- the type analyzer -/
def compiler (settings : AnalyzerSettings) (runner : Runner) : Analyzer :=
  ⟨compilerName, .typescript, settings, .compiler runner⟩

/-- the linter -/
def linter (settings : AnalyzerSettings) (runner : Runner) (zeroThreshold reducedInterval : Int) :
    Except Failure Analyzer :=
  (LintState.start linterName settings.options zeroThreshold reducedInterval).map fun s =>
    ⟨linterName, .eslint, settings, .linter runner s⟩

/-- the detector of unused exports -/
def exports (settings : AnalyzerSettings) (runner : Runner) : Analyzer :=
  ⟨exportsName, .unusedExports, settings, .exports runner⟩

/-- the schedule of an analyzer that checks its rules by turns -/
def schedule? (a : Analyzer) : Option Schedule :=
  match a.method with
  | .linter _ s => some s.schedule
  | _ => none

/-- an analyzer with another schedule, if it has one -/
def withSchedule (a : Analyzer) (schedule : Schedule) : Analyzer :=
  match a.method with
  | .linter runner s => { a with method := .linter runner { s with schedule := schedule } }
  | _ => a

/-- the runner of an analyzer that starts tools -/
def runner? (a : Analyzer) : Option Runner :=
  match a.method with
  | .compiler runner | .linter runner _ | .exports runner => some runner
  | .outside _ _ => none

/-- an analyzer with another runner, if it has one -/
def withRunner (a : Analyzer) (runner : Runner) : Analyzer :=
  match a.method with
  | .compiler _ => { a with method := .compiler runner }
  | .linter _ s => { a with method := .linter runner s }
  | .exports _ => { a with method := .exports runner }
  | .outside _ _ => a

/-- one run without the contract around it; no finding if it does not end -/
def find (w : Workspace) (a : Analyzer) (target : Path) (options : Options) :
    Option Finding × Analyzer :=
  match a.method with
  | .compiler runner =>
    let (finding, runner) := runCompiler w runner target options
    (some finding, { a with method := .compiler runner })
  | .linter runner s =>
    let (finding, runner, s) := runLinter w runner target options s
    (some finding, { a with method := .linter runner s })
  | .exports runner =>
    let (finding, runner) := runExports w runner target options
    (some finding, { a with method := .exports runner })
  | .outside outcome _ =>
    match outcome with
    | .finds vs => (some { outcome := .ok vs }, a)
    | .fails f => (some { outcome := .error f }, a)
    | .hangs => (none, a)

/-- the options of an analyzer with those of one run laid over them -/
def optionsWith (a : Analyzer) (more : Options) : Options := Options.withMore a.settings.options more

/-- whether a run that takes some seconds is given up before it ends: at its limit, or at once if that is no number
or too long for a wait -/
def isOverdue (limit : Option Float) (seconds : Rat) : Bool :=
  match limit with
  | some x => 0 < seconds && ((Failure.ofWait? x).isSome || (Decimal.rational? x).all fun q => q ≤ seconds)
  | none => false

/-- the failure of a run that has not ended in time -/
def overdue (a : Analyzer) : Failure × Bool :=
  (.overdue a.name ((a.settings.timeout.filter (· != 0)).getD 0), true)

/-- the failure of a run that is given up: it has not ended in time, or it could not be waited for -/
def givenUp (a : Analyzer) : Failure × Bool :=
  match a.settings.timeout.bind Failure.ofWait? with
  | some f => (f, false)
  | none => a.overdue

/-- what became of a run: its findings, or its failure and whether it was cut off -/
def settle (a : Analyzer) (finding : Option Finding) :
    Except (Failure × Bool) (List Violation) :=
  match finding with
  | none => .error a.givenUp
  | some finding =>
    if isOverdue a.settings.timeout finding.seconds then .error a.givenUp
    else
      match finding.outcome with
      | .ok vs => .ok vs
      | .error f => .error (if f.kind = .timeout then a.overdue else (f, false))

/-- the time that an analyzer says it took -/
def elapsed (a : Analyzer) : Amount :=
  match a.method with
  | .outside _ (some t) => t
  | _ => .zero

/-- the report of a run that failed, unless the analyzer may not fail -/
def failed (a : Analyzer) (target : Path) (f : Failure) (timedOut : Bool) :
    Except Failure Report :=
  if a.settings.allowFailure then
    .ok ⟨a.name, [], a.elapsed, false, some f.wording, .failed target.text timedOut⟩
  else .error f

/-- the report of a run that ended well -/
def settled (a : Analyzer) (target : Path) (vs : List Violation) : Except Failure Report := do
  let vs ← orFail (Violation.normalizeAll a.source vs)
  return ⟨a.name, vs, a.elapsed, true, none,
    .settled target.text vs.length (a.schedule?.map (·.status))⟩

/-- one run under the contract: of a target that may be given from the root of the project -/
def execute (w : Workspace) (a : Analyzer) (target : String) (options : Options) :
    Except Failure Report × Analyzer :=
  if target.toList.contains '\x00' then (.error .badPath, a)
  else
    let path := (w.root.join (Path.ofText target)).resolve
    let (finding, a) := a.find w path (a.optionsWith options)
    match a.settle finding with
    | .ok vs => (a.settled path vs, a)
    | .error (f, timedOut) => (a.failed path f timedOut, a)

end Analyzer

end LintLedger
