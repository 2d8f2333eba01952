import LintLedger.Analyzer
import LintLedger.Crossover
import LintLedger.Findings.Deduplicate
import LintLedger.Findings.Merge
import LintLedger.Findings.Summary
import LintLedger.Store.Row

/-!
# The engine

Analyzers stand in a registry, no two of one name.  An analysis runs every one of them, takes their
findings together by priority, thins them out, looks for crossover and counts.  If an analyzer that
may not fail does fail, the others are still run to their end, and then the analysis fails with all
such failures at once.

The detector of crossover is made of the registry.  An engine holds the one that was made when its
registry last changed: once all first analyzers are registered, whenever an analyzer is added, and
when one is removed; what is not there is not removed, and changes nothing (`Engine.Equipped`).
-/

namespace LintLedger

/-- the analyzers of a project and how their findings are taken together -/
structure Engine where
  settings : Settings
  workspace : Analyzer.Workspace
  /-- how results are kept, if they are kept at all -/
  keeping : Option StoreSettings
  /-- the analyzers in the order in which they were added -/
  analyzers : List Analyzer
deriving Inhabited

/-- what came of one analysis -/
structure Analysis where
  violations : List Violation
  reports : List Report
  summary : Findings.Summary
  warnings : List Crossover.Warning
deriving Inhabited

namespace Analysis

/-- whether a finding has the gravest severity -/
def hasErrors (a : Analysis) : Bool :=
  0 < Findings.countOf a.summary.bySeverity Severity.error.name

/-- the analyzers that failed -/
def failedEngines (a : Analysis) : List String :=
  (a.reports.filter fun r => !r.success).map (·.engine)

/-- the exit code of a program that ends with this analysis -/
def exitCode (a : Analysis) : Nat := if a.hasErrors then 1 else 0

end Analysis

namespace Engine

/-! ### The registry -/

/-- whether an analyzer has a name -/
def isNamed (name : String) (a : Analyzer) : Bool := a.name = name

/-- an engine with one more analyzer; one of the same name gives up its place to it -/
def add (a : Analyzer) (e : Engine) : Engine :=
  { e with analyzers :=
    if e.analyzers.any (isNamed a.name) then
      e.analyzers.map fun b => if isNamed a.name b then a else b
    else e.analyzers ++ [a] }

/-- an engine without the analyzer of a name, if there is one -/
def remove? (name : String) (e : Engine) : Option Engine :=
  if e.analyzers.any (isNamed name) then
    some { e with analyzers := e.analyzers.filter fun a => !isNamed name a }
  else none

/-- an engine in which the analyzer of a name has been changed -/
def modify (name : String) (f : Analyzer → Analyzer) (e : Engine) : Engine :=
  { e with analyzers := e.analyzers.map fun a => if isNamed name a then f a else a }

/-- an engine of some analyzers, of which the last of each name counts -/
def of (settings : Settings) (workspace : Analyzer.Workspace) (keeping : Option StoreSettings)
    (analyzers : List Analyzer) : Engine :=
  analyzers.foldl (fun e a => e.add a) ⟨settings, workspace, keeping, []⟩

/-- analyzers by priority; of equal priority the one that was added first -/
def byPriority (analyzers : List Analyzer) : List Analyzer :=
  analyzers.mergeSort fun a b => a.settings.priority ≤ b.settings.priority

/-- the analyzers by priority -/
def ordered (e : Engine) : List Analyzer := byPriority e.analyzers

/-- the detector of crossover for the analyzers that are registered -/
def detector (e : Engine) : Crossover.Detector :=
  Crossover.Detector.of e.settings.crossover (e.analyzers.map fun a => (a.name, a.source))

/-- the built-in analyzer of a name, if there is one -/
def builtIn (settings : Settings) (runner : Runner) (name : String) (how : AnalyzerSettings) :
    Except Failure (Option Analyzer) :=
  if name = Analyzer.compilerName then .ok (some (Analyzer.compiler how runner))
  else if name = Analyzer.linterName then
    (Analyzer.linter how runner settings.scheduler.zeroThreshold
      settings.scheduler.reducedInterval).map some
  else if name = Analyzer.exportsName then .ok (some (Analyzer.exports how runner))
  else .ok none

/-- the built-in analyzers that the settings enable; a name without an analyzer is passed over -/
def enabledAnalyzers (settings : Settings) (runner : Runner) : Except Failure (List Analyzer) := do
  let enabled := settings.engines.filter fun entry => entry.2.enabled
  let analyzers ← enabled.mapM fun entry => builtIn settings runner entry.1 entry.2
  return analyzers.filterMap id

/-! ### One analysis -/

/-- how the run of one analyzer ended -/
structure Run where
  analyzer : Analyzer
  outcome : Except Failure Report

/-- every analyzer run on a target, in the order in which they were added -/
def runAll (target : String) (e : Engine) : List Run :=
  e.analyzers.map fun a =>
    let (outcome, a) := a.execute e.workspace target []
    ⟨a, outcome⟩

/-- the runs by the priority of their analyzers -/
def runsByPriority (runs : List Run) : List Run :=
  runs.mergeSort fun a b => a.analyzer.settings.priority ≤ b.analyzer.settings.priority

/-- the reports of the runs that settled -/
def settled (runs : List Run) : List Report :=
  runs.filterMap fun r => match r.outcome with
    | .ok report => some report
    | .error _ => none

/-- the failures of the runs that did not settle -/
def unsettled (runs : List Run) : List (String × Failure) :=
  runs.filterMap fun r => match r.outcome with
    | .ok _ => none
    | .error f => some (r.analyzer.name, f)

/-- the findings of some reports as an analysis shows them -/
def gather (e : Engine) (order : List String) (reports : List Report) :
    Except Failure (List Violation) := do
  let merged ← orFail (Findings.merge reports order)
  if e.settings.deduplication.enabled then
    orFail (Findings.deduplicate e.settings.deduplication.strategy merged)
  else return merged

/-- what the reports of an analysis amount to, given the names of its analyzers by priority and the failures
of those that did not settle -/
def finish (e : Engine) (order : List String) (failures : List (String × Failure))
    (reports : List Report) : Except Failure Analysis := do
  if !failures.isEmpty then throw (.analysis failures reports)
  let violations ← e.gather order reports
  let warnings ← orFail (e.detector.analyze violations reports)
  e.detector.enforce warnings
  let summary ← orFail (Findings.summarize violations reports e.settings.topFiles)
  return ⟨violations, reports, summary, warnings⟩

/-- what runs, which are given by priority, amount to -/
def conclude (e : Engine) (runs : List Run) : Except Failure Analysis :=
  e.finish (runs.map (·.analyzer.name)) (unsettled runs) (settled runs)

/-- one analysis of a target, or of the one that the settings name -/
def analyze (target : Option String) (e : Engine) : Except Failure Analysis × Engine :=
  let runs := e.runAll (target.getD e.settings.targetPath)
  (e.conclude (runsByPriority runs), { e with analyzers := runs.map (·.analyzer) })

/-! ### The detector that is held -/

/-- a change of the registry -/
inductive Change where
  | add (a : Analyzer)
  | remove (name : String)

/-- an engine after a change of its registry -/
def change (c : Change) (e : Engine) : Engine :=
  match c with
  | .add a => e.add a
  | .remove name => (e.remove? name).getD e

/-- an engine with the detector that it holds -/
structure Equipped where
  engine : Engine
  crossover : Crossover.Detector

namespace Equipped

/-- an engine with a detector for the analyzers that are registered -/
def equip (e : Engine) : Equipped := ⟨e, e.detector⟩

/-- an engine of some analyzers with its first detector -/
def of (settings : Settings) (workspace : Analyzer.Workspace) (keeping : Option StoreSettings)
    (analyzers : List Analyzer) : Equipped :=
  equip (Engine.of settings workspace keeping analyzers)

/-- with one more analyzer -/
def add (a : Analyzer) (x : Equipped) : Equipped := equip (x.engine.add a)

/-- without the analyzer of a name, if there is one -/
def remove? (name : String) (x : Equipped) : Option Equipped := (x.engine.remove? name).map equip

/-- after a change of the registry -/
def change (c : Change) (x : Equipped) : Equipped :=
  match c with
  | .add a => x.add a
  | .remove name => (x.remove? name).getD x

/-- after some changes of the registry, one after the other -/
def changed (changes : List Change) (x : Equipped) : Equipped :=
  changes.foldl (fun x c => x.change c) x

end Equipped

end Engine

end LintLedger
