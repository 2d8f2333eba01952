import LintLedger.Settings.Load

/-!
# Settings as records

Settings under the names by which they are set.
-/

namespace LintLedger

/-- the settings of an analyzer -/
def AnalyzerSettings.record (s : AnalyzerSettings) : Value := .map (Settings.analyzerEntries s)

/-- the settings of deduplication -/
def DeduplicationSettings.record (s : DeduplicationSettings) : Value :=
  .record [("enabled", .bool s.enabled), ("strategy", .text s.strategy.name)]

/-- the settings of crossover detection -/
def CrossoverSettings.record (s : CrossoverSettings) : Value :=
  .record [("enabled", .bool s.enabled),
    ("warn_on_type_aware_rules", .bool s.warnOnTypeAwareRules),
    ("warn_on_duplicate_violations", .bool s.warnOnDuplicates),
    ("fail_on_crossover", .bool s.failOnCrossover),
    ("slow_engine_threshold", .float s.slowThreshold), ("type_engine", .text s.typeEngine),
    ("lint_engine", .text s.lintEngine)]

/-- the settings of scheduling -/
def SchedulerSettings.record (s : SchedulerSettings) : Value :=
  .record [("zero_threshold", .int s.zeroThreshold), ("reduced_interval", .int s.reducedInterval)]

/-- the settings of the database -/
def DatabaseSettings.record (s : DatabaseSettings) : Value :=
  .record [("path", .text s.path), ("batch_size", .int s.batchSize),
    ("max_history_days", .int s.maxHistoryDays), ("enable_metrics", .bool s.enableMetrics)]

/-- the settings of the watch -/
def WatchSettings.record (s : WatchSettings) : Value :=
  .record [("interval", .float s.interval), ("debounce", .float s.debounce),
    ("auto_cleanup", .bool s.autoCleanup), ("cleanup_every", .int s.cleanupEvery)]

/-- all settings -/
def Settings.record (s : Settings) : Value :=
  .record [("target_path", .text s.targetPath), ("top_files", .int s.topFiles),
    ("engines", .record (s.engines.map fun e => (e.1, e.2.record))),
    ("deduplication", s.deduplication.record), ("crossover", s.crossover.record),
    ("scheduler", s.scheduler.record), ("database", s.database.record),
    ("watch", s.watch.record)]

end LintLedger
