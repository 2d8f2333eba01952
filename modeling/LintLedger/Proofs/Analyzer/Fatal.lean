import LintLedger.Proofs.Analyzer.Hearing
import LintLedger.Proofs.Schedule.Restart
import Mathlib

/-!
# Files that do not parse

A run that asks for everything reports a syntax error for each file that does not parse: a run that does not
go by turns, or a run by turns of a linter with a single rule.  Any other run asks for one rule, keeps what
is found of that rule only, and a file that does not parse is found under a rule that nobody asks for.  So a
linter that checks two rules or more by turns never reports that a file does not parse, in whatever state it
is, unless it checks for that rule (`fatal_messages`).
-/

namespace LintLedger

open Outcome

namespace Analyzer

variable {w : Workspace} {a : Analyzer} {runner : Runner} {place : Path} {target : String}
  {options : Options} {s : LintState} {o : ToolOutput} {r : Report}

/-- the messages in output of the linter, each with the file that it is about; blank output is not read -/
def heardMessages (w : Workspace) (o : ToolOutput) : List (String × Value) :=
  if Text.strip o.stdout = "" then [] else Output.messagesAt w.root o.stdout

/-- whether a run of a linter asks for everything -/
def LintState.AsksAll (s : LintState) (options : Options) : Prop :=
  goesByTurns options = false ∨ s.rules.length = 1 ∧ ∃ rule, s.schedule.upcoming? = some rule

/-! ### What output tells of files that do not parse -/

/-- a run that asks for everything finds a syntax error for each fatal message without a rule -/
theorem exists_of_isFatal {vs : List Violation} {file : String} {m : Value}
    (h : lintAnswer w [] o = .ok vs) (heard : (file, m) ∈ heardMessages w o)
    (fatal : Output.isFatal m = true) :
    ∃ v ∈ vs, v.rule = Output.parseError ∧ v.category = .known .syntaxError ∧ v.file = .text file ∧
      ∃ line, (Output.lineOf m).toInteger = .ok line ∧ v.line = .int line := by
  unfold heardMessages at heard
  unfold lintAnswer at h
  split at heard
  · cases heard
  · rename_i written
    rw [if_neg written] at h
    exact Output.exists_syntaxError_of_isFatal h heard fatal

/-- a run that asks for another rule finds no syntax error -/
theorem category_ne_of_lintAnswer {vs : List Violation} {rule : Rule}
    (h : lintAnswer w [rule] o = .ok vs) (other : rule.key ≠ .text "parse-error") :
    ∀ v ∈ vs, v.category ≠ .known .syntaxError := by
  intro v hv kind
  unfold lintAnswer at h
  split at h
  · cases h
    cases hv
  · obtain ⟨parse, asked⟩ := Output.rule_of_mem_lintFindings h hv kind
    refine other ?_
    have same : v.rule.key? = some rule.key := by
      simpa [Output.isAskedOf, Violation.isOf] using asked
    rw [parse] at same
    exact (Option.some.inj same).symm

/-! ### Linters in whatever state -/

/-- the linters that a fresh one turns into by runs, by taking up a kept schedule or beginning again with its
own, and by being given other tools -/
inductive Seasoned : Analyzer → Prop
  | start {settings : AnalyzerSettings} {runner : Runner} {zeroThreshold reducedInterval : Int}
      {a : Analyzer} (fresh : linter settings runner zeroThreshold reducedInterval = .ok a) : Seasoned a
  | execute {a : Analyzer} (w : Workspace) (target : String) (options : Options) (before : Seasoned a) :
      Seasoned (a.execute w target options).2
  | restore {a : Analyzer} {schedule : Schedule} (saved : List SavedState) (before : Seasoned a)
      (own : a.schedule? = some schedule) : Seasoned (a.withSchedule (schedule.restore saved))
  | reset {a : Analyzer} {schedule : Schedule} (before : Seasoned a)
      (own : a.schedule? = some schedule) : Seasoned (a.withSchedule schedule.reset)
  | equip {a : Analyzer} (runner : Runner) (before : Seasoned a) : Seasoned (a.withRunner runner)

/-- what holds of a fresh linter under its settings, and goes on to hold through a run, through taking up a
kept schedule and through beginning again, holds of a linter in whatever state -/
theorem Seasoned.exists_of_invariant {I : AnalyzerSettings → LintState → Prop} (h : a.Seasoned)
    (fresh : ∀ {settings : AnalyzerSettings} {rules : List Rule} {threshold interval : Nat},
      lintRules settings.options = .ok rules →
        I settings ⟨rules, .start linterName threshold interval rules⟩)
    (run : ∀ {settings : AnalyzerSettings} {s : LintState} (w : Workspace) (runner : Runner) (place : Path)
      (options : Options), I settings s → I settings (runLinter w runner place options s).2.2)
    (restore : ∀ {settings : AnalyzerSettings} {s : LintState} (saved : List SavedState), I settings s →
      I settings { s with schedule := s.schedule.restore saved })
    (reset : ∀ {settings : AnalyzerSettings} {s : LintState}, I settings s →
      I settings { s with schedule := s.schedule.reset }) :
    ∃ runner s, a.method = .linter runner s ∧ I a.settings s := by
  induction h with
  | start begun =>
    obtain ⟨rules, threshold, interval, listed, -, -, rfl⟩ := exists_of_linter_eq_ok begun
    exact ⟨_, _, rfl, fresh listed⟩
  | @execute a w target options _ ih =>
    obtain ⟨runner, s, method, now⟩ := ih
    obtain ⟨method', same⟩ := execute_snd w a target options
    have settings : (a.execute w target options).2.settings = a.settings := by rw [same]
    rw [settings]
    obtain ⟨runner', s', after, rfl | rfl⟩ := exists_method_execute w target options method
    · exact ⟨runner', s', after, now⟩
    · exact ⟨runner', _, after, run _ _ _ _ now⟩
  | restore saved _ own ih =>
    obtain ⟨runner, s, method, now⟩ := ih
    obtain rfl := Option.some.inj ((schedule?_of_linter method).symm.trans own)
    rw [settings_withSchedule]
    exact ⟨runner, _, method_withSchedule method _, restore saved now⟩
  | reset _ own ih =>
    obtain ⟨runner, s, method, now⟩ := ih
    obtain rfl := Option.some.inj ((schedule?_of_linter method).symm.trans own)
    rw [settings_withSchedule]
    exact ⟨runner, _, method_withSchedule method _, reset now⟩
  | equip runner _ ih =>
    obtain ⟨old, s, method, now⟩ := ih
    rw [settings_withRunner]
    exact ⟨runner, s, method_withRunner method runner, now⟩

/-- whether a linter looks for other rules than the one that stands for a file that does not parse, and not
for a single rule only -/
def LintState.IsBlind (s : LintState) : Prop :=
  s.rules.length ≠ 1 ∧ ∀ rule ∈ s.rules, rule.key ≠ .text "parse-error"

/-- whether the rules of a schedule are those of its linter, and nothing about syntax is known if the linter
is blind to it -/
structure LintState.IsOwn (s : LintState) : Prop where
  rules : ∀ rule ∈ s.schedule.rules, rule ∈ s.rules
  known : s.IsBlind → ∀ v ∈ s.schedule.known, v.category ≠ .known .syntaxError

/-- what a blind linter finds for a rule has nothing to do with syntax -/
theorem LintState.IsBlind.category_ne {rule : Rule} {found : List Violation} (blind : s.IsBlind)
    (own : rule ∈ s.rules)
    (h : (runLint w runner place options s.rules.length [rule]).1.outcome = .ok found) :
    ∀ v ∈ found, v.category ≠ .known .syntaxError := by
  have several : askedRules s.rules.length [rule] = [rule] := by
    have positive := List.length_pos_of_mem own
    have single := blind.1
    exact if_pos (show 1 < s.rules.length by omega)
  obtain ⟨o, -, answer⟩ := exists_of_runLint h
  rw [several] at answer
  exact category_ne_of_lintAnswer answer (blind.2 rule own)

theorem rules_runLinter : (runLinter w runner place options s).2.2.rules = s.rules := by
  unfold runLinter
  dsimp only
  split <;> rfl

/-- a run leaves a linter with its own rules, and a blind one without findings about syntax -/
theorem LintState.IsOwn.runLinter (own : s.IsOwn) :
    (runLinter w runner place options s).2.2.IsOwn := by
  have same : (Analyzer.runLinter w runner place options s).2.2.rules = s.rules := rules_runLinter
  have alike : s.schedule.IsAlike (Analyzer.runLinter w runner place options s).2.2.schedule := by
    by_cases turns : goesByTurns options = true
    · rw [(runLinter_of_goesByTurns w runner place s turns).2]
      exact Schedule.isAlike_runCycle _
    · rw [(runLinter_of_not_goesByTurns turns).2]
      exact ⟨rfl, rfl, rfl, rfl⟩
  refine ⟨fun rule hrule => same ▸ own.rules rule (alike.rules ▸ hrule), fun blind v hv => ?_⟩
  have blind : s.IsBlind := by
    unfold LintState.IsBlind at blind ⊢
    rwa [same] at blind
  rcases mem_known_runLinter hv with old | ⟨-, rule, found, next, ran, new⟩
  · exact own.known blind v old
  · obtain ⟨e, he, rfl⟩ := Schedule.exists_of_upcoming_eq_some next
    exact blind.category_ne (own.rules _ (List.mem_map_of_mem he)) ran v new

/-- a linter in whatever state is a linter with its own rules -/
theorem Seasoned.exists_state (h : a.Seasoned) : ∃ runner s, a.method = .linter runner s ∧ s.IsOwn := by
  refine h.exists_of_invariant (I := fun _ s => s.IsOwn) (fun _ => ?_) (fun _ _ _ _ own => own.runLinter)
    (fun saved own => ?_) fun own => ?_
  · refine ⟨fun rule hrule => Schedule.mem_of_mem_rules_start hrule, fun _ v hv => ?_⟩
    rw [Schedule.known_start] at hv
    cases hv
  · refine ⟨fun rule hrule => ?_, fun blind v hv => ?_⟩
    · exact own.rules rule ((Schedule.isAlike_restore saved).rules ▸ hrule)
    · exact own.known blind v (Schedule.known_restore saved ▸ hv)
  · refine ⟨fun rule hrule => own.rules rule (Schedule.mem_of_mem_rules_start hrule), fun _ v hv => ?_⟩
    rw [Schedule.reset, Schedule.known_start] at hv
    cases hv

/-! ### Runs that ask for everything, and others -/

/-- a run that asks for everything settles with what its tool tells of everything -/
theorem LintState.AsksAll.settledRun (all : s.AsksAll (a.optionsWith options)) (own : s.IsOwn)
    (method : a.method = .linter runner s) (hears : a.Hears w target options o) :
    ∃ command,
      (∀ found, lintOutcome w command [] { outcome := .ok o } = .ok found →
        ∃ vs, a.settledRun w target options = .ok vs ∧ ∀ v, v ∈ vs ↔ v ∈ found) ∧
      ∀ f, lintOutcome w command [] { outcome := .ok o } = .error f →
        ∃ failure, a.settledRun w target options = .error failure := by
  rcases all with atOnce | ⟨single, rule, next⟩
  · obtain ⟨command, -, -, settles, fails⟩ := execute_at_once method atOnce hears
    exact ⟨command, fun found read => ⟨found, settles found read, fun v => Iff.rfl⟩, fails⟩
  by_cases turns : goesByTurns (a.optionsWith options) = true
  · obtain ⟨command, -, -, settles, fails⟩ := execute_by_turns method turns hears
    obtain ⟨t, states, failed, checked⟩ :=
      Schedule.runCycle_of_upcoming_eq_some (lintCheck w command s.rules.length o) next
    have everything : lintCheck w command s.rules.length o rule =
        lintOutcome w command [] { outcome := .ok o } := by
      rw [single, lintCheck_of_single]
    rw [everything] at failed checked
    refine ⟨command, fun found read => ?_, fun f read => fails f (by rw [failed f read])⟩
    refine ⟨_, settles _ (by rw [checked found read]), fun v => ?_⟩
    obtain ⟨e, he, rfl⟩ := Schedule.exists_of_upcoming_eq_some next
    rw [Schedule.mem_known_record ⟨e, states ▸ he, rfl⟩]
    -- there is no other rule that anything could be known of
    refine or_iff_left ?_
    rintro ⟨d, hd, other, -⟩
    obtain ⟨only, rules⟩ := List.length_eq_one_iff.mp single
    have mem : ∀ e ∈ s.schedule.states, e.rule = only := fun e he =>
      List.mem_singleton.mp (rules ▸ own.rules _ (List.mem_map_of_mem he))
    rw [mem d (states ▸ hd), mem e he] at other
    exact other rfl
  · obtain ⟨command, -, -, settles, fails⟩ := execute_at_once method (by simpa using turns) hears
    exact ⟨command, fun found read => ⟨found, settles found read, fun v => Iff.rfl⟩, fails⟩

/-- a run that asks for single rules of several reports nothing about syntax -/
theorem category_ne_of_not_asksAll (own : s.IsOwn) (method : a.method = .linter runner s)
    (some : ¬ s.AsksAll (a.optionsWith options))
    (other : ∀ rule ∈ s.rules, rule.key ≠ .text "parse-error")
    (h : (a.execute w target options).1 = .ok r) (success : r.success = true) :
    ∀ v ∈ r.violations, v.category ≠ .known .syntaxError := by
  obtain ⟨turns, alone⟩ : goesByTurns (a.optionsWith options) = true ∧
      (s.rules.length = 1 → s.schedule.upcoming? = none) := by
    unfold LintState.AsksAll at some
    rw [not_or, Bool.not_eq_false, not_and, not_exists] at some
    exact ⟨some.1, fun single => Option.eq_none_iff_forall_ne_some.mpr (some.2 single)⟩
  obtain ⟨vs, settles, -, reported⟩ := exists_of_success h success
  obtain ⟨one, found, ended⟩ := outcome_of_settle_eq_ok settles
  rw [find_linter w (placeOf w target) (a.optionsWith options) method] at found
  cases found
  intro v hv
  rw [reported] at hv
  obtain ⟨raw, hraw, rfl⟩ := List.mem_map.mp hv
  cases next : s.schedule.upcoming? with
  | none =>
    rw [(runLinter_of_upcoming_eq_none turns next).1] at ended
    cases ended
    cases hraw
  | some rule =>
    have blind : s.IsBlind := ⟨fun single => by simp [alone single] at next, other⟩
    refine own.runLinter.known ?_ raw (mem_known_of_runLinter turns ended raw hraw)
    unfold LintState.IsBlind at blind ⊢
    rwa [rules_runLinter]

/-- **Files that do not parse.** In whatever state a linter is, a run that asks for everything reports a
syntax error for each fatal message without a rule, at the place of that message, if it succeeds, and it
succeeds if its tool has not failed and left proper output behind.  A run that asks for one rule of several
reports no syntax error whatever its tool writes, unless the rule that stands for one is among them. -/
theorem fatal_messages (seasoned : a.Seasoned) (method : a.method = .linter runner s) :
    (s.AsksAll (a.optionsWith options) → a.Hears w target options o →
      (o.status < 2 → Output.isProperOutput o.stdout = true →
        ∃ r, (a.execute w target options).1 = .ok r ∧ r.success = true) ∧
      ∀ r, (a.execute w target options).1 = .ok r → r.success = true →
        ∀ file m, (file, m) ∈ heardMessages w o → Output.isFatal m = true →
          ∃ v ∈ r.violations, v.rule = Output.parseError ∧ v.category = .known .syntaxError ∧
            v.file = .text (Text.strip file) ∧
            ∃ line, (Output.lineOf m).toInteger = .ok line ∧ v.line = .int line) ∧
    (¬ s.AsksAll (a.optionsWith options) → (∀ rule ∈ s.rules, rule.key ≠ .text "parse-error") →
      ∀ r, (a.execute w target options).1 = .ok r → r.success = true →
        ∀ v ∈ r.violations, v.category ≠ .known .syntaxError) := by
  obtain ⟨runner', s', method', own⟩ := seasoned.exists_state
  cases method.symm.trans method'
  refine ⟨fun all hears => ⟨fun fine proper => ?_, fun r h success file m heard fatal => ?_⟩,
    fun some other r h success => category_ne_of_not_asksAll own method some other h success⟩
  · obtain ⟨command, settles, -⟩ := all.settledRun own method hears
    obtain ⟨full, answer, clean⟩ := exists_lintAnswer_of_isProperOutput w proper
    obtain ⟨vs, settled, same⟩ := settles _ ((lintOutcome_eq_ok rfl).mpr ⟨fine, answer []⟩)
    obtain ⟨r, told, success, -⟩ := exists_report hears.named settled fun v hv =>
      (clean v (List.mem_of_mem_filter ((same v).mp hv))).2
    exact ⟨r, told, success⟩
  · obtain ⟨command, settles, fails⟩ := all.settledRun own method hears
    obtain ⟨vs, settled, -, reported⟩ := exists_of_success h success
    cases read : lintOutcome w command [] { outcome := .ok o } with
    | error f =>
      obtain ⟨failure, failed⟩ := fails f read
      cases settled.symm.trans failed
    | ok found =>
      obtain ⟨vs', settled', same⟩ := settles found read
      cases settled.symm.trans settled'
      obtain ⟨v, hv, parse, kind, place, line, written, own⟩ :=
        exists_of_isFatal ((lintOutcome_eq_ok rfl).mp read).2 heard fatal
      have name : Output.isName v.rule = true := by
        rw [parse]
        decide
      refine ⟨v.normalForm a.source, ?_, ?_, kind, ?_, line, written, own⟩
      · rw [reported]
        exact List.mem_map_of_mem ((same v).mpr hv)
      · exact (Output.trimmed_of_isName name).trans parse
      · unfold Violation.normalForm
        rw [place]
        rfl

/-! ### A file that does not parse -/

/-- output about a file that does not parse -/
def brokenOutput : ToolOutput where
  stdout := "[\x7b\"filePath\":\"a.ts\",\"messages\":[\x7b\"ruleId\":null,\"fatal\":true,"
    ++ "\"message\":\"Parsing error\",\"line\":3\x7d]\x7d]"
  stderr := ""
  status := 1

theorem heardMessages_brokenOutput :
    (heardMessages bareProject brokenOutput).map
        (fun p => (p.1, Output.isFatal p.2, (Output.lineOf p.2).toInteger.toOption)) =
      [("a.ts", true, some 3)] := by
  decide +kernel

theorem seasoned_linterOn (names : List String) : (linterOn names o).Seasoned :=
  .start (linter_settingsFor names o)

/-- a linter of one rule reports it -/
theorem fatal_messages_single :
    ∃ r, ((linterOn ["no-console"] brokenOutput).execute bareProject "." []).1 = .ok r ∧
      ∃ v ∈ r.violations, v.rule = Output.parseError ∧ v.category = .known .syntaxError ∧
        v.file = .text "a.ts" ∧ v.line = .int 3 := by
  have hears : (linterOn ["no-console"] brokenOutput).Hears bareProject "." [] brokenOutput :=
    hears_of_known rfl rfl (by decide) (by decide +kernel)
  have proper : Output.isProperOutput brokenOutput.stdout = true := by decide +kernel
  obtain ⟨⟨file, m⟩, parts, same⟩ := List.map_eq_singleton_iff.mp heardMessages_brokenOutput
  obtain ⟨rfl, fatal, third⟩ : file = "a.ts" ∧ Output.isFatal m = true ∧
      (Output.lineOf m).toInteger.toOption = some 3 := by simpa using same
  obtain ⟨all, -⟩ := fatal_messages (w := bareProject) (o := brokenOutput) (a := linterOn ["no-console"] _)
    (seasoned_linterOn _) rfl
  obtain ⟨succeeds, reports⟩ := all (.inr ⟨rfl, _, rfl⟩) hears
  obtain ⟨r, told, success⟩ := succeeds (by decide) proper
  obtain ⟨v, hv, parse, kind, place, line, written, own⟩ :=
    reports r told success "a.ts" m (parts ▸ List.mem_singleton_self _) fatal
  rw [written] at third
  refine ⟨r, told, v, hv, parse, kind, place.trans ?_, own.trans ?_⟩
  · rw [show Text.strip "a.ts" = "a.ts" by decide +kernel]
  · rw [show line = 3 from Option.some.inj third]

/-- a linter that checks two rules by turns does not, and calls the run a success -/
theorem fatal_message_lost :
    (linterOn ["no-console", "prefer-const"] brokenOutput).Seasoned ∧
      (linterOn ["no-console", "prefer-const"] brokenOutput).Hears bareProject "." [] brokenOutput ∧
      (heardMessages bareProject brokenOutput).map (fun p => (p.1, Output.isFatal p.2)) =
        [("a.ts", true)] ∧
      ((linterOn ["no-console", "prefer-const"] brokenOutput).execute bareProject "." []).1.toOption.map
        (fun r => (r.success, r.violations.length)) = some (true, 0) :=
  ⟨seasoned_linterOn _, hears_of_known rfl rfl (by decide) (by decide +kernel), by decide +kernel,
    by decide +kernel⟩

end Analyzer

end LintLedger
