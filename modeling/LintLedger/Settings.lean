import LintLedger.Settings.Coerce

/-!
# Settings

What can be set, with its defaults: how each analyzer runs, how findings are merged, compared and
kept, and how the watch goes.  `Settings.read` takes a map apart into settings or into all that is
wrong with it, in the order in which the settings are declared.
-/

namespace LintLedger

/-- how one analyzer runs -/
structure AnalyzerSettings where
  /-- whether it runs at all -/
  enabled : Bool
  /-- its place in the order of findings; lower comes first -/
  priority : Int
  /-- the seconds after which it is cut off -/
  timeout : Option Float
  /-- whether its failure leaves the analysis standing -/
  allowFailure : Bool
  /-- what only this analyzer understands -/
  options : List (Value × Value)
deriving Inhabited

/-- how an analyzer runs of which nothing is said -/
def AnalyzerSettings.default : AnalyzerSettings := ⟨true, 1, none, true, []⟩

/-- when two findings count as the same -/
inductive Strategy where
  | exact | location | similar
deriving Repr, DecidableEq, Inhabited

namespace Strategy

/-- the strategies -/
def all : List Strategy := [exact, location, similar]

/-- the name of a strategy -/
def name : Strategy → String
  | exact => "exact"
  | location => "location"
  | similar => "similar"

/-- the strategy of a name -/
def ofName? (s : String) : Option Strategy := all.find? fun v => v.name = s

end Strategy

/-- whether and how findings are thinned out after merging -/
structure DeduplicationSettings where
  enabled : Bool := true
  strategy : Strategy := .exact
deriving Repr, Inhabited

/-- how overlap between the type analyzer and the linter is watched -/
structure CrossoverSettings where
  enabled : Bool := true
  warnOnTypeAwareRules : Bool := true
  warnOnDuplicates : Bool := true
  failOnCrossover : Bool := false
  slowThreshold : Float := 10
  typeEngine : String := "typescript"
  lintEngine : String := "eslint"
deriving Inhabited

/-- when rules that find nothing are checked less often -/
structure SchedulerSettings where
  zeroThreshold : Nat := 5
  reducedInterval : Nat := 5
deriving Repr, DecidableEq, Inhabited

/-- where findings are kept and for how long -/
structure DatabaseSettings where
  path : String := ".qualityiq/quality.db"
  batchSize : Nat := 100
  maxHistoryDays : Nat := 30
  enableMetrics : Bool := true
deriving Repr, DecidableEq, Inhabited

/-- how the watch goes -/
structure WatchSettings where
  interval : Float := 3
  debounce : Float := 0.5
  autoCleanup : Bool := true
  cleanupEvery : Nat := 100
deriving Inhabited

/-- the analyzers of which something is said by default -/
def defaultAnalyzers : List (String × AnalyzerSettings) :=
  [
    ("typescript", { AnalyzerSettings.default with priority := 1, timeout := some 60 }),
    ("eslint", { AnalyzerSettings.default with
      priority := 2, timeout := some 35, options := [(.text "round_robin", .bool true)] }),
    ("unused-exports", { AnalyzerSettings.default with priority := 3, timeout := some 30 })]

/-- all that can be set -/
structure Settings where
  targetPath : String := "."
  topFiles : Nat := 10
  engines : List (String × AnalyzerSettings) := defaultAnalyzers
  deduplication : DeduplicationSettings := {}
  crossover : CrossoverSettings := {}
  scheduler : SchedulerSettings := {}
  database : DatabaseSettings := {}
  watch : WatchSettings := {}
deriving Inhabited

namespace Settings

/-- the settings of an analyzer -/
def readAnalyzer (place : List Value) (es : List (Value × Value)) : Checked AnalyzerSettings :=
  let base := AnalyzerSettings.default
  let f : Checked _ := .ok AnalyzerSettings.mk
  let f := andAlso f (readField es place "enabled" base.enabled readBool)
  let f := andAlso f (readField es place "priority" base.priority readInt)
  let f := andAlso f (readField es place "timeout" base.timeout (readOptional readFloat))
  let f := andAlso f (readField es place "allow_failure" base.allowFailure readBool)
  andAlso f (readField es place "options" base.options fun place v =>
    (readEntries (fun _ w => .ok w) place v).map fun entries =>
      entries.map fun e => (.text e.1, e.2))

/-- the settings of an analyzer, which have to be a map -/
def readAnalyzerGroup : List Value → Value → Checked AnalyzerSettings :=
  readGroup "EngineSettings" readAnalyzer

/-- a strategy -/
def readStrategy (place : List Value) : Value → Checked Strategy
  | .text s => match Strategy.ofName? s with
    | some strategy => .ok strategy
    | none => complain place .strategy
  | _ => complain place .strategy

/-- the settings of deduplication -/
def readDeduplication (place : List Value) (es : List (Value × Value)) :
    Checked DeduplicationSettings :=
  let base : DeduplicationSettings := {}
  let f : Checked _ := .ok DeduplicationSettings.mk
  let f := andAlso f (readField es place "enabled" base.enabled readBool)
  andAlso f (readField es place "strategy" base.strategy readStrategy)

/-- the settings of crossover detection -/
def readCrossover (place : List Value) (es : List (Value × Value)) : Checked CrossoverSettings :=
  let base : CrossoverSettings := {}
  let f : Checked _ := .ok CrossoverSettings.mk
  let f := andAlso f (readField es place "enabled" base.enabled readBool)
  let f := andAlso f
    (readField es place "warn_on_type_aware_rules" base.warnOnTypeAwareRules readBool)
  let f := andAlso f
    (readField es place "warn_on_duplicate_violations" base.warnOnDuplicates readBool)
  let f := andAlso f (readField es place "fail_on_crossover" base.failOnCrossover readBool)
  let f := andAlso f (readField es place "slow_engine_threshold" base.slowThreshold readFloat)
  let f := andAlso f (readField es place "type_engine" base.typeEngine readText)
  andAlso f (readField es place "lint_engine" base.lintEngine readText)

/-- the settings of scheduling -/
def readScheduler (place : List Value) (es : List (Value × Value)) : Checked SchedulerSettings :=
  let base : SchedulerSettings := {}
  let f : Checked _ := .ok SchedulerSettings.mk
  let f := andAlso f (readField es place "zero_threshold" base.zeroThreshold (readNatFrom 1))
  andAlso f (readField es place "reduced_interval" base.reducedInterval (readNatFrom 1))

/-- the settings of the database -/
def readDatabase (place : List Value) (es : List (Value × Value)) : Checked DatabaseSettings :=
  let base : DatabaseSettings := {}
  let f : Checked _ := .ok DatabaseSettings.mk
  let f := andAlso f (readField es place "path" base.path readText)
  let f := andAlso f (readField es place "batch_size" base.batchSize (readNatFrom 1))
  let f := andAlso f (readField es place "max_history_days" base.maxHistoryDays (readNatFrom 1))
  andAlso f (readField es place "enable_metrics" base.enableMetrics readBool)

/-- the settings of the watch -/
def readWatch (place : List Value) (es : List (Value × Value)) : Checked WatchSettings :=
  let base : WatchSettings := {}
  let f : Checked _ := .ok WatchSettings.mk
  let f := andAlso f (readField es place "interval" base.interval readPositive)
  let f := andAlso f (readField es place "debounce" base.debounce readUnsigned)
  let f := andAlso f (readField es place "auto_cleanup" base.autoCleanup readBool)
  andAlso f (readField es place "cleanup_every" base.cleanupEvery (readNatFrom 1))

/-- all settings from the entries of a map -/
def read (es : List (Value × Value)) : Checked Settings :=
  let base : Settings := {}
  let f : Checked _ := .ok Settings.mk
  let f := andAlso f (readField es [] "target_path" base.targetPath readText)
  let f := andAlso f (readField es [] "top_files" base.topFiles (readNatFrom 1))
  let f := andAlso f (readField es [] "engines" base.engines (readEntries readAnalyzerGroup))
  let f := andAlso f (readField es [] "deduplication" base.deduplication
    (readGroup "DeduplicationSettings" readDeduplication))
  let f := andAlso f (readField es [] "crossover" base.crossover
    (readGroup "CrossoverSettings" readCrossover))
  let f := andAlso f (readField es [] "scheduler" base.scheduler
    (readGroup "SchedulerSettings" readScheduler))
  let f := andAlso f (readField es [] "database" base.database
    (readGroup "DatabaseSettings" readDatabase))
  andAlso f (readField es [] "watch" base.watch (readGroup "WatchSettings" readWatch))

/-- the settings of the analyzer of a name, the defaults if nothing is said of it -/
def engine (s : Settings) (name : String) : AnalyzerSettings :=
  (s.engines.lookup name).getD AnalyzerSettings.default

end Settings

end LintLedger
