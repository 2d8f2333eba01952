import LintLedger.Engine.Cycle
import LintLedger.Proofs.Analyzer.Fatal
import LintLedger.Proofs.Output.Wording
import Mathlib

/-!
# The built-in analyzers

The type analyzer, the linter and the detector of unused exports, in whatever state their runs have left them
(`IsBuiltIn`).  What one of them reports is the normal form of a finding whose code is told by what it says
(`IsBuiltIn.exists_isWorded`).  Of the linter that holds because it holds of all that any run finds, and a run
hands on nothing but what it has found itself and what earlier runs have (`mem_runLinter`).
-/

namespace LintLedger

open Outcome

namespace Analyzer

variable {w : Workspace} {a : Analyzer} {runner : Runner} {place : Path} {target : String}
  {options : Options} {s : LintState} {r : Report} {vs : List Violation}

/-! ### Linters in whatever state -/

/-- what a run of the linter hands on was known before, or it has found it itself -/
theorem mem_runLinter {v : Violation} (h : (runLinter w runner place options s).1.outcome = .ok vs)
    (hv : v ∈ vs) : v ∈ s.schedule.known ∨ ∃ rules found,
      (runLint w runner place options s.rules.length rules).1.outcome = .ok found ∧ v ∈ found := by
  by_cases turns : goesByTurns options = true
  · rcases mem_known_runLinter (mem_known_of_runLinter turns h v hv) with old | ⟨-, rule, found, -, ran, new⟩
    · exact .inl old
    · exact .inr ⟨[rule], found, ran, new⟩
  · rw [(runLinter_of_not_goesByTurns turns).1] at h
    exact .inr ⟨s.rules, vs, h, hv⟩

theorem Seasoned.source (h : a.Seasoned) : a.source = .eslint := by
  induction h with
  | start fresh =>
    obtain ⟨rules, threshold, interval, -, -, -, rfl⟩ := exists_of_linter_eq_ok fresh
    rfl
  | execute w target options _ ih =>
    obtain ⟨method, same⟩ := execute_snd w _ target options
    rw [same]
    exact ih
  | restore saved _ _ ih =>
    unfold withSchedule
    split <;> exact ih
  | reset _ _ ih =>
    unfold withSchedule
    split <;> exact ih
  | equip runner _ ih =>
    unfold withRunner
    split <;> exact ih

/-- what is true of all that any run of the linter finds is true of all that a linter knows -/
theorem Seasoned.exists_known {P : Violation → Prop}
    (finds : ∀ w runner place options count rules found,
      (runLint w runner place options count rules).1.outcome = .ok found → ∀ v ∈ found, P v)
    (h : a.Seasoned) : ∃ runner s, a.method = .linter runner s ∧ ∀ v ∈ s.schedule.known, P v := by
  have none : ∀ name threshold interval rules, ∀ v ∈ (Schedule.start name threshold interval rules).known,
      P v := by
    intro name threshold interval rules v hv
    rw [Schedule.known_start] at hv
    cases hv
  refine h.exists_of_invariant (I := fun _ s => ∀ v ∈ s.schedule.known, P v) (fun _ => none _ _ _ _)
    (fun w runner place options known v hv => ?_) (fun saved known => ?_) fun _ => none _ _ _ _
  · rcases mem_known_runLinter hv with old | ⟨-, rule, found, -, ran, new⟩
    · exact known v old
    · exact finds _ _ _ _ _ _ _ ran v new
  · dsimp only
    rw [Schedule.known_restore]
    exact known

/-! ### The built-in analyzers -/

/-- the analyzers that are built in, with any settings and tools, and linters in whatever state -/
inductive IsBuiltIn : Analyzer → Prop
  | compiler (settings : AnalyzerSettings) (runner : Runner) : IsBuiltIn (compiler settings runner)
  | linter {a : Analyzer} (seasoned : a.Seasoned) : IsBuiltIn a
  | exports (settings : AnalyzerSettings) (runner : Runner) : IsBuiltIn (exports settings runner)

/-- a run leaves a built-in analyzer as one -/
theorem IsBuiltIn.execute (h : a.IsBuiltIn) (w : Workspace) (target : String) (options : Options) :
    (a.execute w target options).2.IsBuiltIn := by
  cases h with
  | compiler settings runner =>
    by_cases named : '\x00' ∈ target.toList
    · rw [execute_snd_of_unnamed named]
      exact .compiler settings runner
    · rw [execute_snd_eq_find named]
      exact .compiler settings _
  | linter seasoned => exact .linter (.execute w target options seasoned)
  | exports settings runner =>
    by_cases named : '\x00' ∈ target.toList
    · rw [execute_snd_of_unnamed named]
      exact .exports settings runner
    · rw [execute_snd_eq_find named]
      exact .exports settings _

/-- so does taking up what was kept of its schedule -/
theorem IsBuiltIn.restoreAnalyzer (h : a.IsBuiltIn) {store : Store} {b : Analyzer}
    (taken : Engine.restoreAnalyzer store a = .ok b) : b.IsBuiltIn := by
  unfold Engine.restoreAnalyzer at taken
  split at taken
  · rename_i schedule own
    obtain ⟨kept, -, rfl⟩ := map_eq_ok.mp taken
    cases h with
    | compiler settings runner => cases own
    | linter seasoned => exact .linter (.restore kept seasoned own)
    | exports settings runner => cases own
  · cases taken
    exact h

/-- whatever analyzer the settings enable is one -/
theorem isBuiltIn_of_mem_enabledAnalyzers {settings : Settings} {analyzers : List Analyzer}
    (h : Engine.enabledAnalyzers settings runner = .ok analyzers) (ha : a ∈ analyzers) : a.IsBuiltIn := by
  obtain ⟨found, hfound, h⟩ := bind_eq_ok.mp h
  cases h
  obtain ⟨one, hone, same⟩ := List.mem_filterMap.mp ha
  obtain rfl : one = some a := same
  obtain ⟨entry, -, made⟩ := exists_of_mem_mapM hfound hone
  unfold Engine.builtIn at made
  split at made
  · cases made
    exact .compiler _ _
  split at made
  · obtain ⟨b, fresh, same⟩ := map_eq_ok.mp made
    cases same
    exact .linter (.start fresh)
  split at made
  · cases made
    exact .exports _ _
  · cases made

/-! ### What they report -/

theorem isWorded_of_mem_compilerOutcome {command : List String} {result : ToolResult}
    (h : compilerOutcome w command result = .ok vs) : ∀ v ∈ vs, Output.IsWorded .typescript v := by
  unfold compilerOutcome at h
  obtain ⟨o, -, h⟩ := bind_eq_ok.mp h
  dsimp only at h
  split at h
  · cases h
  · split at h
    · cases h
    · exact fun v => Output.isWorded_of_mem_compilerFindings (orFail_eq_ok.mp h)

theorem isWorded_of_mem_runCompiler (h : (runCompiler w runner place options).1.outcome = .ok vs) :
    ∀ v ∈ vs, Output.IsWorded .typescript v := by
  unfold runCompiler at h
  dsimp only at h
  split at h
  · cases h
  · cases h
    intro v hv
    rw [List.mem_singleton.mp hv]
    exact .missing place
  · exact isWorded_of_mem_compilerOutcome h

theorem isWorded_of_mem_runExports (h : (runExports w runner place options).1.outcome = .ok vs) :
    ∀ v ∈ vs, Output.IsWorded .unusedExports v := by
  unfold runExports at h
  dsimp only at h
  split at h
  · cases h
  · unfold exportsOutcome at h
    obtain ⟨o, -, h⟩ := bind_eq_ok.mp h
    dsimp only at h
    split at h
    · cases h
    · split at h
      · cases h
      · exact fun v => Output.isWorded_of_mem_exportFindings (orFail_eq_ok.mp h)

theorem isWorded_of_mem_runLint {count : Nat} {rules : List Rule}
    (h : (runLint w runner place options count rules).1.outcome = .ok vs) :
    ∀ v ∈ vs, Output.IsWorded .eslint v := by
  obtain ⟨o, -, answer⟩ := exists_of_runLint h
  unfold lintAnswer at answer
  split at answer
  · cases answer
    exact List.forall_mem_nil _
  · exact fun v => Output.isWorded_of_mem_lintFindings answer

theorem Seasoned.isWorded_of_mem_find (h : a.Seasoned) {one : Finding}
    (found : (a.find w place options).1 = some one) (ended : one.outcome = .ok vs) :
    ∀ v ∈ vs, Output.IsWorded .eslint v := by
  obtain ⟨runner, s, method, known⟩ := h.exists_known fun _ _ _ _ _ _ _ ran => isWorded_of_mem_runLint ran
  rw [find_linter w place options method] at found
  cases found
  intro v hv
  rcases mem_runLinter ended hv with old | ⟨rules, new, ran, hv⟩
  · exact known v old
  · exact isWorded_of_mem_runLint ran v hv

/-- what a built-in analyzer finds says its code -/
theorem IsBuiltIn.isWorded_of_mem_find (h : a.IsBuiltIn) {one : Finding}
    (found : (a.find w place options).1 = some one) (ended : one.outcome = .ok vs) :
    ∀ v ∈ vs, Output.IsWorded a.source v := by
  cases h with
  | compiler settings runner =>
    cases found
    exact isWorded_of_mem_runCompiler ended
  | linter seasoned =>
    rw [seasoned.source]
    exact seasoned.isWorded_of_mem_find found ended
  | exports settings runner =>
    cases found
    exact isWorded_of_mem_runExports ended

/-- what a built-in analyzer reports is the normal form of a finding that says its code -/
theorem IsBuiltIn.exists_isWorded (h : a.IsBuiltIn) (ran : (a.execute w target options).1 = .ok r)
    (success : r.success = true) :
    ∀ v ∈ r.violations, ∃ raw, Output.IsWorded a.source raw ∧ v = raw.normalForm a.source := by
  obtain ⟨vs, settles, -, reported⟩ := exists_of_success ran success
  obtain ⟨one, found, ended⟩ := outcome_of_settle_eq_ok settles
  intro v hv
  rw [reported] at hv
  obtain ⟨raw, hraw, rfl⟩ := List.mem_map.mp hv
  exact ⟨raw, h.isWorded_of_mem_find found ended raw hraw, rfl⟩

end Analyzer

end LintLedger
