import LintLedger.Proofs.Analyzer.Contract
import LintLedger.Proofs.Analyzer.Linter
import LintLedger.Proofs.Output.Messages
import LintLedger.Proofs.Schedule.Steady
import Mathlib

/-!
# What a run hears from its tool

A run of the linter is settled by what its tool leaves behind.  By turns it is one cycle of the schedule,
whose check reads that output for one rule (`checkOf_eq_lintCheck`); otherwise it reads the output for
everything.  If the tool ends in time, the report of the run tells of the findings in their normal form, or
of the failure (`execute_by_turns`, `execute_at_once`).  Proper output comes to findings for every rule that
is asked for, parts of one whole (`exists_lintAnswer_of_isProperOutput`).
-/

namespace LintLedger

open Outcome

namespace Analyzer

variable {w : Workspace} {a : Analyzer} {runner : Runner} {place : Path} {target : String}
  {options : Options} {s : LintState} {o : ToolOutput} {command : List String} {only : List Rule}
  {vs : List Violation} {r : Report}

/-! ### What tools leave behind -/

/-- what the tool of an analyzer leaves behind if a run starts it, as far as it has a command to start -/
def toolResult? (w : Workspace) (a : Analyzer) (place : Path) (options : Options) : Option ToolResult :=
  match a.method with
  | .compiler runner =>
    match options.command? with
    | .ok own => (own.orElse fun _ => (projectFile? w place).map compilerCommand).map fun command =>
        (runner.run (options.request command) false).1
    | .error _ => none
  | .linter runner _ =>
    match lintCommandOf options place with
    | .ok command => some (runner.run (options.request command) false).1
    | .error _ => none
  | .exports runner =>
    match options.command? with
    | .ok own => some (runner.run (options.request (own.getD (exportsCommand place))) false).1
    | .error _ => none
  | .outside _ _ => none

/-- whether the tool of an analyzer can be started on a target, and ends in time with an output -/
structure Hears (w : Workspace) (a : Analyzer) (target : String) (options : Options) (o : ToolOutput) :
    Prop where
  named : '\x00' ∉ target.toList
  ended : ∃ result, a.toolResult? w (placeOf w target) (a.optionsWith options) = some result ∧
    result.outcome = .ok o ∧ isOverdue a.settings.timeout result.seconds = false

theorem isOverdue_zero (limit : Option Float) : isOverdue limit 0 = false := by
  unfold isOverdue
  split
  · simp
  · rfl

/-- a run that is known beforehand and goes on for ever is what a linter hears in each run that has a command
to start -/
theorem hears_of_known {k : KnownRun} {asked : List ToolRequest}
    (method : a.method = .linter (.known [k] asked) s) (ended : k.outcome = .ok o)
    (named : '\x00' ∉ target.toList)
    (started : (lintCommandOf (a.optionsWith options) (placeOf w target)).isOk = true) :
    a.Hears w target options o := by
  obtain ⟨command, started⟩ := exists_eq_ok.mpr started
  refine ⟨named, { outcome := k.outcome, cancelled := k.cancels }, ?_, ended, isOverdue_zero _⟩
  unfold toolResult?
  rw [method]
  dsimp only
  rw [started]
  rfl

/-! ### What the linter makes of it -/

/-- what output of the linter that has not failed stands for -/
def lintAnswer (w : Workspace) (only : List Rule) (o : ToolOutput) : Except Fault (List Violation) :=
  if Text.strip o.stdout = "" then .ok [] else Output.lintFindings w.root only o.stdout

theorem lintOutcome_eq_ok {result : ToolResult} (ended : result.outcome = .ok o) :
    lintOutcome w command only result = .ok vs ↔ o.status < 2 ∧ lintAnswer w only o = .ok vs := by
  unfold lintOutcome lintAnswer
  rw [ended]
  change (if 2 ≤ o.status then _ else _ : Except Failure (List Violation)) = .ok vs ↔ _
  by_cases failed : 2 ≤ o.status
  · rw [if_pos failed]
    refine iff_of_false nofun fun ⟨fine, _⟩ => by omega
  · rw [if_neg failed, and_iff_right (by omega)]
    split
    · exact ⟨fun h => congrArg _ (Except.ok.inj h), fun h => congrArg _ (Except.ok.inj h)⟩
    · exact orFail_eq_ok

/-- what the check of a rule by a linter with some rules comes to, given the output of its tool -/
def lintCheck (w : Workspace) (command : List String) (count : Nat) (o : ToolOutput) (r : Rule) :
    Except Failure (List Violation) :=
  lintOutcome w command (askedRules count [r]) { outcome := .ok o }

/-- a check by a linter of a single rule asks for everything -/
theorem lintCheck_of_single {rule : Rule} :
    lintCheck w command 1 o rule = lintOutcome w command [] { outcome := .ok o } := by
  unfold lintCheck askedRules
  rw [if_neg (by simp)]

/-- proper output comes to parts of one whole, whatever rules are asked for -/
theorem exists_lintAnswer_of_isProperOutput (w : Workspace)
    (proper : Output.isProperOutput o.stdout = true) :
    ∃ full : List Violation, (∀ only, lintAnswer w only o = .ok (full.filter (Output.isAskedOf only))) ∧
      ∀ v ∈ full, Output.isName v.rule = true ∧ v.IsTrimmable := by
  unfold lintAnswer
  by_cases blank : Text.strip o.stdout = ""
  · exact ⟨[], fun only => by rw [if_pos blank]; rfl, List.forall_mem_nil _⟩
  · obtain ⟨full, read, fine⟩ := Output.exists_lintFindings_of_isProperOutput w.root proper
    refine ⟨full, fun only => ?_, fine⟩
    rw [if_neg blank]
    exact Output.lintFindings_only read fun v hv => Output.exists_key_of_isName (fine v hv).1

theorem lintOutcome_congr {result : ToolResult} (ended : result.outcome = .ok o) :
    lintOutcome w command only result = lintOutcome w command only { outcome := .ok o } := by
  unfold lintOutcome
  rw [ended]

/-- one run of the tool for some rules -/
theorem runLint_of_started {count : Nat} {rules : List Rule}
    (started : lintCommandOf options place = .ok command) :
    (runLint w runner place options count rules).1 =
      { outcome := lintOutcome w command (askedRules count rules)
          (runner.run (options.request command) false).1
        seconds := (runner.run (options.request command) false).1.seconds } := by
  unfold runLint
  rw [started]
  rfl

/-- what one run of the tool finds is what its output stands for -/
theorem exists_of_runLint {count : Nat} {rules : List Rule}
    (h : (runLint w runner place options count rules).1.outcome = .ok vs) :
    ∃ o : ToolOutput, o.status < 2 ∧ lintAnswer w (askedRules count rules) o = .ok vs := by
  cases started : lintCommandOf options place with
  | error f =>
    unfold runLint at h
    rw [started] at h
    cases h
  | ok command =>
    rw [runLint_of_started started] at h
    obtain ⟨o, ended, -⟩ := bind_eq_ok.mp h
    exact ⟨o, (lintOutcome_eq_ok ended).mp h⟩

/-- the check of a rule whose tool leaves an output behind -/
theorem checkOf_eq_lintCheck (started : lintCommandOf options place = .ok command)
    (ended : (runner.run (options.request command) false).1.outcome = .ok o) (count : Nat) :
    checkOf w runner place options count = lintCheck w command count o := by
  funext rule
  unfold checkOf lintCheck
  rw [runLint_of_started started]
  exact lintOutcome_congr ended

/-- a run by turns takes as long as its tool, or no time -/
theorem seconds_runLinter (turns : goesByTurns options = true)
    (started : lintCommandOf options place = .ok command) :
    (runLinter w runner place options s).1.seconds = (runner.run (options.request command) false).1.seconds ∨
      (runLinter w runner place options s).1.seconds = 0 := by
  unfold runLinter
  dsimp only
  rw [if_pos turns]
  cases s.schedule.upcoming? with
  | none => exact .inr rfl
  | some rule =>
    dsimp only
    rw [runLint_of_started started]
    exact .inl rfl

/-- a run of the linter by turns whose tool ends in time is one cycle of its schedule, and settles as that
cycle does -/
theorem execute_by_turns (method : a.method = .linter runner s)
    (turns : goesByTurns (a.optionsWith options) = true) (hears : a.Hears w target options o) :
    ∃ command runner',
      (a.execute w target options).2 = { a with
        method := .linter runner'
          ⟨s.rules, (s.schedule.runCycle (lintCheck w command s.rules.length o)).2⟩ } ∧
      (∀ p, (s.schedule.runCycle (lintCheck w command s.rules.length o)).1 = .ok p →
        a.settledRun w target options = .ok p.2) ∧
      ∀ f, (s.schedule.runCycle (lintCheck w command s.rules.length o)).1 = .error f →
        ∃ failure, a.settledRun w target options = .error failure := by
  obtain ⟨named, result, started, ended, inTime⟩ := hears
  unfold toolResult? at started
  rw [method] at started
  dsimp only at started
  split at started
  · rename_i command written
    cases started
    obtain ⟨outcome, after⟩ := runLinter_of_goesByTurns w runner (placeOf w target) s turns
    rw [checkOf_eq_lintCheck written ended] at outcome after
    have found := find_linter w (placeOf w target) (a.optionsWith options) method
    have inTime' : isOverdue a.settings.timeout
        (runLinter w runner (placeOf w target) (a.optionsWith options) s).1.seconds = false := by
      rcases seconds_runLinter (w := w) (s := s) turns written with same | none
      · exact same ▸ inTime
      · exact none ▸ isOverdue_zero _
    rw [after] at found
    refine ⟨command, _, (execute_snd_eq_find named).trans (congrArg Prod.snd found), fun p settles => ?_,
      fun f fails => ?_⟩
    · unfold settledRun settle
      rw [found]
      dsimp only
      rw [inTime', outcome, settles]
      rfl
    · unfold settledRun settle
      rw [found]
      dsimp only
      rw [inTime', outcome, fails]
      exact ⟨_, rfl⟩
  · cases started

/-- a run of the linter for everything whose tool ends in time settles as the reading of its output does,
and leaves the schedule alone -/
theorem execute_at_once (method : a.method = .linter runner s)
    (atOnce : goesByTurns (a.optionsWith options) = false) (hears : a.Hears w target options o) :
    ∃ command runner', (a.execute w target options).2 = { a with method := .linter runner' s } ∧
      (∀ vs, lintOutcome w command [] { outcome := .ok o } = .ok vs →
        a.settledRun w target options = .ok vs) ∧
      ∀ f, lintOutcome w command [] { outcome := .ok o } = .error f →
        ∃ failure, a.settledRun w target options = .error failure := by
  obtain ⟨named, result, started, ended, inTime⟩ := hears
  unfold toolResult? at started
  rw [method] at started
  dsimp only at started
  split at started
  · rename_i command written
    cases started
    rcases ran : runLinter w runner (placeOf w target) (a.optionsWith options) s with
      ⟨finding, runner', s'⟩
    have whole : (runLinter w runner (placeOf w target) (a.optionsWith options) s).1 =
          (runLint w runner (placeOf w target) (a.optionsWith options) s.rules.length s.rules).1 ∧
        (runLinter w runner (placeOf w target) (a.optionsWith options) s).2.2 = s :=
      runLinter_of_not_goesByTurns (by simp [atOnce])
    rw [ran, runLint_of_started written, lintOutcome_congr ended] at whole
    obtain ⟨rfl, same⟩ := whole
    obtain rfl : s' = s := same
    have found := find_linter w (placeOf w target) (a.optionsWith options) method
    rw [ran] at found
    have everything : askedRules s'.rules.length s'.rules = [] := if_neg (lt_irrefl _)
    refine ⟨command, runner', by rw [execute_snd_eq_find named, found], fun vs settles => ?_,
      fun f fails => ?_⟩
    · unfold settledRun settle
      rw [found]
      dsimp only
      rw [inTime, everything, settles]
      rfl
    · unfold settledRun settle
      rw [found]
      dsimp only
      rw [inTime, everything, fails]
      exact ⟨_, rfl⟩
  · cases started

/-- a linter goes on with a run that is known beforehand and goes on for ever -/
theorem exists_execute_known {k : KnownRun} {asked : List ToolRequest}
    (method : a.method = .linter (.known [k] asked) s) :
    ∃ asked' s', (a.execute w target options).2.method = .linter (.known [k] asked') s' := by
  have once : ∀ rules, ∃ asked', (runLint w (.known [k] asked) (placeOf w target)
      (a.optionsWith options) s.rules.length rules).2 = .known [k] asked' := by
    intro rules
    unfold runLint
    split
    · exact ⟨asked, rfl⟩
    · exact ⟨_, rfl⟩
  by_cases named : '\x00' ∈ target.toList
  · rw [execute_snd_of_unnamed named]
    exact ⟨asked, s, method⟩
  · rw [execute_snd_eq_find named, find_linter w (placeOf w target) (a.optionsWith options) method]
    unfold runLinter
    dsimp only
    split
    · cases next : s.schedule.upcoming? with
      | none => exact ⟨asked, _, rfl⟩
      | some r =>
        obtain ⟨asked', ran⟩ := once [r]
        exact ⟨asked', _, by dsimp only; rw [ran]⟩
    · obtain ⟨asked', ran⟩ := once s.rules
      exact ⟨asked', _, by dsimp only; rw [ran]⟩

/-! ### Reports -/

theorem settled_eq_ok {a : Analyzer} : a.settled place vs = .ok r ↔
    (∀ v ∈ vs, v.IsTrimmable) ∧ r = ⟨a.name, vs.map (Violation.normalForm a.source), a.elapsed, true, none,
      .settled place.text vs.length (a.schedule?.map (·.status))⟩ := by
  unfold settled
  rw [bind_eq_ok]
  constructor
  · rintro ⟨ws, normal, h⟩
    obtain ⟨trimmable, rfl⟩ := Violation.normalizeAll_eq_ok.mp (orFail_eq_ok.mp normal)
    cases h
    rw [List.length_map]
    exact ⟨trimmable, rfl⟩
  · rintro ⟨trimmable, rfl⟩
    refine ⟨_, orFail_eq_ok.mpr (Violation.normalizeAll_eq_ok.mpr ⟨trimmable, rfl⟩), ?_⟩
    rw [List.length_map]
    rfl

/-- a run that settles with trimmable findings succeeds with their normal forms -/
theorem exists_report (named : '\x00' ∉ target.toList) (settles : a.settledRun w target options = .ok vs)
    (trimmable : ∀ v ∈ vs, v.IsTrimmable) :
    ∃ r, (a.execute w target options).1 = .ok r ∧ r.success = true ∧ r.error = none ∧
      r.violations = vs.map (Violation.normalForm a.source) := by
  obtain ⟨method, same⟩ := find_snd w a (placeOf w target) (a.optionsWith options)
  rw [execute_of_settledRun_eq_ok named settles, same]
  exact ⟨_, settled_eq_ok.mpr ⟨trimmable, rfl⟩, rfl, rfl, rfl⟩

/-- a run that succeeds has settled with findings of which it reports the normal forms -/
theorem exists_of_success (h : (a.execute w target options).1 = .ok r) (success : r.success = true) :
    ∃ vs, a.settledRun w target options = .ok vs ∧ (∀ v ∈ vs, v.IsTrimmable) ∧
      r.violations = vs.map (Violation.normalForm a.source) := by
  obtain ⟨named, -, told⟩ := execute_eq_ok h
  obtain ⟨vs, settles, -⟩ := told success
  obtain ⟨method, same⟩ := find_snd w a (placeOf w target) (a.optionsWith options)
  rw [execute_of_settledRun_eq_ok named settles, same] at h
  obtain ⟨trimmable, rfl⟩ := settled_eq_ok.mp h
  exact ⟨vs, settles, trimmable, rfl⟩

/-- a run by turns that ends with a report goes on with its schedule; if it succeeds, the report tells of what
the cycle has answered, and bears the last rule -/
theorem execute_eq_runCycle (method : a.method = .linter runner s)
    (turns : goesByTurns (a.optionsWith []) = true) (ran : (a.execute w target []).1 = .ok r) :
    let cycle := s.schedule.runCycle
      (checkOf w runner (placeOf w target) (a.optionsWith []) s.rules.length)
    (∃ runner', (a.execute w target []).2 = { a with method := .linter runner' ⟨s.rules, cycle.2⟩ }) ∧
      (r.success = true → ∃ p, cycle.1 = .ok p ∧ r.violations = p.2.map (Violation.normalForm a.source) ∧
        r.checkedRule? = cycle.2.lastRule.map (·.value)) := by
  intro cycle
  obtain ⟨named, -, noted⟩ := execute_eq_ok ran
  obtain ⟨ended, next⟩ := runLinter_of_goesByTurns w runner (placeOf w target) s turns
  have found := find_linter w (placeOf w target) (a.optionsWith []) method
  have after := (execute_snd_eq_find named).trans (congrArg Prod.snd found)
  dsimp only at after
  rw [next] at after
  refine ⟨⟨_, after⟩, fun success => ?_⟩
  obtain ⟨vs, settles, -, reported⟩ := exists_of_success ran success
  obtain ⟨one, same, outcome⟩ := outcome_of_settle_eq_ok settles
  rw [found] at same
  cases same
  rw [ended] at outcome
  obtain ⟨p, answer, rfl⟩ := map_eq_ok.mp outcome
  obtain ⟨-, -, notes⟩ := noted success
  rw [after] at notes
  refine ⟨p, answer, reported, ?_⟩
  unfold Report.checkedRule?
  rw [notes]
  rfl

/-! ### Linters with a known tool -/

/-- a project without files -/
def bareProject : Workspace := ⟨⟨.root, ["p"]⟩, .empty⟩

/-- the settings of a linter of some rules -/
def settingsFor (names : List String) : AnalyzerSettings :=
  { AnalyzerSettings.default with options := [(.text "rules", .list (names.map .text))] }

/-- a linter of some rules, with a tool that leaves one output behind in every run -/
def linterOn (names : List String) (o : ToolOutput) : Analyzer :=
  ⟨linterName, .eslint, settingsFor names, .linter (.known [{ outcome := .ok o }] [])
    ⟨names.map .ofName, .start linterName 5 5 (names.map .ofName)⟩⟩

theorem lintRules_settingsFor (names : List String) :
    lintRules (settingsFor names).options = .ok (names.map .ofName) := by
  change (names.map Value.text).mapM Rule.ofValue = _
  refine mapM_eq_ok.mpr ?_
  rw [List.forall₂_map_left_iff, List.forall₂_map_right_iff]
  exact List.forall₂_same.mpr fun name _ => rfl

theorem linter_settingsFor (names : List String) (o : ToolOutput) :
    linter (settingsFor names) (.known [{ outcome := .ok o }] []) 5 5 = .ok (linterOn names o) := by
  have rules := orFail_eq_ok.mpr (lintRules_settingsFor names)
  exact map_eq_ok.mpr ⟨_, bind_eq_ok.mpr ⟨_, rules, rfl⟩, rfl⟩

end Analyzer

end LintLedger
