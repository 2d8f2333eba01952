import LintLedger.Proofs.Analyzer.Hearing
import LintLedger.Proofs.Distinct
import Mathlib

/-!
# Tools that repeat themselves

Where the tool of an analyzer leaves the same output behind in every run that starts it, an analyzer without
a schedule finds the same in every run on a target that succeeds (`settledRun_eq_plainPart`), and also on
another target, unless there is no project to compile on one of them (`plainPart_eq_or_strays`).  What a linter
finds that checks its rules by turns are the parts of the output for the rules that it has asked for since it
began, and a run only adds to these (`LintsFor.execute`); after a restart it has asked for none
(`LintsFor.restore`).
-/

namespace LintLedger

open Outcome

namespace Analyzer

variable {w : Workspace} {a b : Analyzer} {runner : Runner} {place : Path} {target : String}
  {options : Options} {s : LintState} {o : ToolOutput} {vs : List Violation} {r : Report}
  {names : List String} {asked : List Rule}

/-- whether the tool of an analyzer, if a run on a target starts it, leaves some output behind -/
def Leaves (w : Workspace) (a : Analyzer) (target : String) (o : ToolOutput) : Prop :=
  ∀ result ∈ a.toolResult? w (placeOf w target) (a.optionsWith []), result.outcome.toOption = some o

instance : Decidable (a.Leaves w target o) :=
  inferInstanceAs (Decidable (∀ result ∈ a.toolResult? w (placeOf w target) (a.optionsWith []),
    result.outcome.toOption = some o))

theorem Leaves.outcome (h : a.Leaves w target o) {result : ToolResult}
    (started : a.toolResult? w (placeOf w target) (a.optionsWith []) = some result) :
    result.outcome = .ok o :=
  eq_ok_of_toOption (h result started)

/-! ### Analyzers without a schedule -/

theorem exists_withRunner_eq (a : Analyzer) : ∃ runner, a.withRunner runner = a := by
  obtain ⟨name, source, settings, method⟩ := a
  cases method with
  | compiler runner | exports runner => exact ⟨runner, rfl⟩
  | linter runner s => exact ⟨runner, rfl⟩
  | outside outcome elapsed => exact ⟨.known [] [], rfl⟩

/-- another runner is all that an analyzer gets -/
theorem fields_withRunner (a : Analyzer) (runner : Runner) :
    (a.withRunner runner).name = a.name ∧ (a.withRunner runner).source = a.source ∧
      (a.schedule? = none → (a.withRunner runner).schedule? = none) := by
  obtain ⟨name, source, settings, method⟩ := a
  cases method <;> exact ⟨rfl, rfl, fun plain => plain⟩

/-- an analyzer without a schedule goes on with another runner, if anything -/
theorem exists_withRunner_execute (plain : a.schedule? = none) (runner : Runner) :
    ∃ runner', ((a.withRunner runner).execute w target []).2 = a.withRunner runner' := by
  by_cases named : '\x00' ∈ target.toList
  · exact ⟨runner, execute_snd_of_unnamed named⟩
  · rw [execute_snd_eq_find named]
    obtain ⟨name, source, settings, method⟩ := a
    cases method with
    | linter own s => cases plain
    | compiler own | exports own => exact ⟨_, rfl⟩
    | outside outcome elapsed => cases outcome <;> exact ⟨runner, rfl⟩

/-- what an output tells on a target to an analyzer without a schedule -/
def plainPart (w : Workspace) (a : Analyzer) (target : String) (o : ToolOutput) : List Violation :=
  match a.method with
  | .compiler _ =>
    if (a.optionsWith []).command? = .ok none ∧ projectFile? w (placeOf w target) = none then
      [missingProject (placeOf w target)]
    else (Output.compilerFindings w.root (o.stdout ++ "\n" ++ o.stderr)).toOption.getD []
  | .exports _ => (Output.exportFindings w.root o.stdout).toOption.getD []
  | .outside (.finds vs) _ => vs
  | _ => []

theorem plainPart_withRunner (a : Analyzer) (runner : Runner) :
    (a.withRunner runner).plainPart w target o = a.plainPart w target o := by
  obtain ⟨name, source, settings, method⟩ := a
  cases method <;> rfl

theorem compilerOutcome_eq_ok {command : List String} {result : ToolResult} (ended : result.outcome = .ok o)
    (h : compilerOutcome w command result = .ok vs) :
    Output.compilerFindings w.root (o.stdout ++ "\n" ++ o.stderr) = .ok vs := by
  unfold compilerOutcome at h
  rw [ended] at h
  change (if _ then _ else _ : Except Failure (List Violation)) = _ at h
  split at h
  · cases h
  · change (if _ then _ else _ : Except Failure (List Violation)) = _ at h
    split at h
    · cases h
    · exact orFail_eq_ok.mp h

theorem exportsOutcome_eq_ok {command : List String} {result : ToolResult} (ended : result.outcome = .ok o)
    (h : exportsOutcome w command result = .ok vs) : Output.exportFindings w.root o.stdout = .ok vs := by
  unfold exportsOutcome at h
  rw [ended] at h
  change (if _ then _ else _ : Except Failure (List Violation)) = _ at h
  split at h
  · cases h
  · change (if _ then _ else _ : Except Failure (List Violation)) = _ at h
    split at h
    · cases h
    · exact orFail_eq_ok.mp h

/-- a run of the type analyzer, if it succeeds, finds what the output of its tool tells -/
theorem runCompiler_eq_plainPart (method : a.method = .compiler runner) (left : a.Leaves w target o)
    (h : (runCompiler w runner (placeOf w target) (a.optionsWith [])).1.outcome = .ok vs) :
    vs = a.plainPart w target o := by
  have started : ∀ result, a.toolResult? w (placeOf w target) (a.optionsWith []) = some result →
      result.outcome = .ok o := fun _ => left.outcome
  unfold toolResult? at started
  rw [method] at started
  dsimp only at started
  unfold runCompiler at h
  unfold plainPart
  rw [method]
  dsimp only
  cases command : (a.optionsWith []).command? with
  | error f =>
    rw [command] at h
    cases h
  | ok own =>
    rw [command] at started h
    dsimp only [Except.map] at started h
    cases written : own.orElse fun _ => (projectFile? w (placeOf w target)).map compilerCommand with
    | none =>
      rw [written] at h
      cases h
      obtain ⟨rfl, missing⟩ : own = none ∧ projectFile? w (placeOf w target) = none := by
        simpa [Option.orElse_eq_none] using written
      rw [if_pos ⟨rfl, missing⟩]
    | some command =>
      rw [written] at started h
      have prepared : ¬ ((.ok own : Except Fault (Option (List String))) = .ok none ∧
          projectFile? w (placeOf w target) = none) := by
        rintro ⟨same, missing⟩
        cases same
        rw [missing] at written
        cases written
      rw [if_neg prepared, compilerOutcome_eq_ok (started _ rfl) h]
      rfl

/-- so does one of the detector of unused exports -/
theorem runExports_eq_plainPart (method : a.method = .exports runner) (left : a.Leaves w target o)
    (h : (runExports w runner (placeOf w target) (a.optionsWith [])).1.outcome = .ok vs) :
    vs = a.plainPart w target o := by
  have started : ∀ result, a.toolResult? w (placeOf w target) (a.optionsWith []) = some result →
      result.outcome = .ok o := fun _ => left.outcome
  unfold toolResult? at started
  rw [method] at started
  dsimp only at started
  unfold runExports at h
  unfold plainPart
  rw [method]
  dsimp only
  cases command : (a.optionsWith []).command? with
  | error f =>
    rw [command] at h
    cases h
  | ok own =>
    rw [command] at started h
    dsimp only at started h
    rw [exportsOutcome_eq_ok (started _ rfl) h]
    rfl

/-- an analyzer without a schedule, if its run settles, finds what the output of its tool tells -/
theorem settledRun_eq_plainPart (plain : a.schedule? = none) (left : a.Leaves w target o)
    (settles : a.settledRun w target [] = .ok vs) : vs = a.plainPart w target o := by
  obtain ⟨one, found, ended⟩ := outcome_of_settle_eq_ok settles
  unfold schedule? at plain
  unfold find at found
  cases method : a.method with
  | linter own s =>
    rw [method] at plain
    cases plain
  | outside outcome elapsed =>
    rw [method] at found
    cases outcome with
    | finds vs' =>
      cases found
      cases ended
      unfold plainPart
      rw [method]
    | fails f =>
      cases found
      cases ended
    | hangs => cases found
  | compiler own =>
    rw [method] at found
    cases found
    exact runCompiler_eq_plainPart method left ended
  | exports own =>
    rw [method] at found
    cases found
    exact runExports_eq_plainPart method left ended

/-- whether an analyzer compiles two targets, with no command of its own, of which one has no project -/
structure Strays (w : Workspace) (a : Analyzer) (target target' : String) : Prop where
  exists_runner : ∃ runner, a.method = .compiler runner
  unordered : (a.optionsWith []).command? = .ok none
  apart : placeOf w target ≠ placeOf w target'
  missing : projectFile? w (placeOf w target) = none ∨ projectFile? w (placeOf w target') = none

theorem Strays.schedule?_eq_none {target' : String} (h : a.Strays w target target') :
    a.schedule? = none := by
  obtain ⟨runner, method⟩ := h.exists_runner
  unfold schedule?
  rw [method]

/-- an output tells on one target what it tells on another one, unless the analyzer strays -/
theorem plainPart_eq_or_strays (w : Workspace) (a : Analyzer) (target target' : String) (o : ToolOutput) :
    a.plainPart w target o = a.plainPart w target' o ∨ a.Strays w target target' := by
  unfold plainPart
  cases method : a.method with
  | compiler runner =>
    dsimp only
    by_cases near : placeOf w target = placeOf w target'
    · rw [near]
      exact .inl rfl
    · by_cases unordered : (a.optionsWith []).command? = .ok none
      · by_cases missing : projectFile? w (placeOf w target) = none ∨ projectFile? w (placeOf w target') = none
        · exact .inr ⟨⟨runner, method⟩, unordered, near, missing⟩
        · obtain ⟨here, there⟩ := not_or.mp missing
          rw [if_neg fun h => here h.2, if_neg fun h => there h.2]
          exact .inl rfl
      · rw [if_neg fun h => unordered h.1, if_neg fun h => unordered h.1]
        exact .inl rfl
  | exports runner | linter runner s => exact .inl rfl
  | outside outcome elapsed => cases outcome <;> exact .inl rfl

/-! ### The linter -/

/-- what output of the linter tells of one of some rules -/
def lintPart (w : Workspace) (count : Nat) (o : ToolOutput) (rule : Rule) : List Violation :=
  (lintAnswer w (askedRules count [rule]) o).toOption.getD []

/-- a check of a rule, if it answers, answers with what the output tells of the rule -/
theorem eq_lintPart {count : Nat} {rule : Rule} (method : a.method = .linter runner s)
    (left : a.Leaves w target o)
    (h : (runLint w runner (placeOf w target) (a.optionsWith []) count [rule]).1.outcome = .ok vs) :
    vs = lintPart w count o rule := by
  have started : ∀ result, a.toolResult? w (placeOf w target) (a.optionsWith []) = some result →
      result.outcome = .ok o := fun _ => left.outcome
  unfold toolResult? at started
  rw [method] at started
  dsimp only at started
  cases command : lintCommandOf (a.optionsWith []) (placeOf w target) with
  | error f =>
    unfold runLint at h
    rw [command] at h
    cases h
  | ok command' =>
    rw [command] at started
    rw [runLint_of_started command] at h
    obtain ⟨-, answer⟩ := (lintOutcome_eq_ok (started _ rfl)).mp h
    unfold lintPart
    rw [answer]
    rfl

/-- a linter as it is begun, to check rules of some names by turns -/
def BeginsLinting (names : List String) (a : Analyzer) : Prop :=
  ∃ settings runner zeroThreshold reducedInterval,
    linter settings runner zeroThreshold reducedInterval = .ok a ∧
      lintRules settings.options = .ok (names.map .ofName) ∧ goesByTurns settings.options = true

/-- a linter that checks rules of some names by turns and, since it has begun, has come to know what an
output tells of some of them -/
structure LintsFor (w : Workspace) (o : ToolOutput) (names : List String) (asked : List Rule)
    (a : Analyzer) : Prop where
  name : a.name = linterName
  source : a.source = .eslint
  turns : goesByTurns a.settings.options = true
  exists_schedule : ∃ runner schedule, a.method = .linter runner ⟨names.map .ofName, schedule⟩ ∧
    schedule.IsSound ∧ (∀ rule, rule ∈ schedule.rules ↔ rule ∈ names.map Rule.ofName) ∧
    (∀ rule ∈ asked, rule ∈ schedule.rules) ∧ schedule.Knows (lintPart w names.length o) asked

/-- a linter that is begun knows nothing -/
theorem BeginsLinting.lintsFor (h : a.BeginsLinting names) : a.LintsFor w o names [] := by
  obtain ⟨settings, runner, zeroThreshold, reducedInterval, fresh, listed, turns⟩ := h
  obtain ⟨rules', threshold, interval, listed', positive, positive', rfl⟩ := exists_of_linter_eq_ok fresh
  obtain rfl : names.map Rule.ofName = rules' := Except.ok.inj (listed.symm.trans listed')
  refine ⟨rfl, rfl, turns, runner, _, rfl, .start _ _ positive positive', fun rule => ?_,
    List.forall_mem_nil _, Schedule.knows_nil Schedule.known_start⟩
  refine ⟨Schedule.mem_of_mem_rules_start, fun listed => ?_⟩
  obtain ⟨other, hother, same⟩ :
      ∃ other ∈ distinctBy Rule.key (names.map Rule.ofName), other.key = rule.key :=
    exists_mem_distinctBy listed
  have equal : other = rule := by
    obtain ⟨n, -, rfl⟩ := List.mem_map.mp ((distinctBy_sublist _ _).subset hother)
    obtain ⟨m, -, rfl⟩ := List.mem_map.mp listed
    rw [Key.text.inj same]
  exact List.mem_map.mpr ⟨.fresh other, List.mem_map_of_mem hother, equal⟩

theorem BeginsLinting.name_eq (h : a.BeginsLinting names) : a.name = linterName := by
  obtain ⟨settings, runner, zeroThreshold, reducedInterval, fresh, listed, -⟩ := h
  obtain ⟨rules', threshold, interval, -, -, -, rfl⟩ := exists_of_linter_eq_ok fresh
  rfl

theorem BeginsLinting.schedule_ne_none (h : a.BeginsLinting names) : a.schedule? ≠ none := by
  obtain ⟨settings, runner, zeroThreshold, reducedInterval, fresh, listed, -⟩ := h
  obtain ⟨rules, threshold, interval, -, -, -, rfl⟩ := exists_of_linter_eq_ok fresh
  exact nofun

/-- a rule that has been asked for is one of those that are checked -/
theorem LintsFor.exists_name (h : a.LintsFor w o names asked) {rule : Rule} (hrule : rule ∈ asked) :
    ∃ name ∈ names, rule = .ofName name := by
  obtain ⟨-, -, -, runner, schedule, -, -, rules, known, -⟩ := h
  obtain ⟨name, hname, rfl⟩ := List.mem_map.mp ((rules rule).mp (known rule hrule))
  exact ⟨name, hname, rfl⟩

/-- neither does a linter that has taken up a schedule since it has begun -/
theorem LintsFor.restore (h : a.LintsFor w o names []) {schedule : Schedule}
    (own : a.schedule? = some schedule) (kept : List SavedState) :
    (a.withSchedule (schedule.restore kept)).LintsFor w o names [] := by
  obtain ⟨name, source, turns, runner, schedule', method, sound, rules, -, knows⟩ := h
  obtain rfl : schedule' = schedule := Option.some.inj ((schedule?_of_linter method).symm.trans own)
  have nothing : schedule'.known = [] := by
    refine List.eq_nil_iff_forall_not_mem.mpr fun v hv => ?_
    obtain ⟨rule, hrule, -⟩ := (knows.mem_known (List.forall_mem_nil _)).mp hv
    cases hrule
  unfold withSchedule
  rw [method]
  refine ⟨name, source, turns, runner, _, rfl, sound.restore kept, fun rule => ?_,
    List.forall_mem_nil _, ?_⟩
  · rw [(Schedule.isAlike_restore kept).rules, rules]
  · exact Schedule.knows_nil ((Schedule.known_restore kept).trans nothing)

/-- a report that bears a rule is one of success -/
theorem success_of_checkedRule? {rule : Value} (ran : (a.execute w target []).1 = .ok r)
    (bears : r.checkedRule? = some rule) : r.success = true := by
  have named := (execute_eq_ok ran).1
  cases settles : a.settledRun w target [] with
  | ok vs =>
    rw [execute_of_settledRun_eq_ok named settles] at ran
    obtain ⟨-, rfl⟩ := settled_eq_ok.mp ran
    rfl
  | error p =>
    obtain ⟨f, timedOut⟩ := p
    rw [execute_of_settledRun_eq_error named settles] at ran
    unfold failed at ran
    split at ran
    · cases ran
      cases bears
    · cases ran

/-- A run of a linter whose tool leaves an output behind comes to know what the output tells of one more rule
or of none.  If it succeeds, it reports all that is known then, and if its report bears a rule, that is known
as well. -/
theorem LintsFor.execute (h : a.LintsFor w o names asked) (left : a.Leaves w target o)
    (ran : (a.execute w target []).1 = .ok r) :
    ∃ asked', (∀ rule ∈ asked, rule ∈ asked') ∧ (a.execute w target []).2.LintsFor w o names asked' ∧
      (r.success = true → ∀ v, v ∈ r.violations ↔
        ∃ rule ∈ asked', ∃ u ∈ lintPart w names.length o rule, u.normalForm .eslint = v) ∧
      ∀ name ∈ names, r.checkedRule? = some (.text name) → Rule.ofName name ∈ asked' := by
  obtain ⟨name, source, turns, runner, schedule, method, sound, rules, known, knows⟩ := h
  have count : (names.map Rule.ofName).length = names.length := List.length_map _
  obtain ⟨⟨runner', after⟩, told⟩ := execute_eq_runCycle method turns ran
  dsimp only at after told
  rw [count] at after told
  have steady : ∀ rule found, schedule.upcoming? = some rule →
      checkOf w runner (placeOf w target) (a.optionsWith []) names.length rule = .ok found →
      found = lintPart w names.length o rule := fun rule found _ answer => eq_lintPart method left answer
  generalize checkOf w runner (placeOf w target) (a.optionsWith []) names.length = check at *
  have alike : schedule.IsAlike (schedule.runCycle check).2 := Schedule.isAlike_runCycle check
  have knows' := knows.runCycle sound steady
  have own : ∀ rule ∈ (schedule.checked? check).toList ++ asked,
      rule ∈ (schedule.runCycle check).2.rules := by
    intro rule hrule
    rw [alike.rules]
    rcases List.mem_append.mp hrule with now | before
    · exact Schedule.mem_rules_of_checked? (Option.mem_toList.mp now)
    · exact known rule before
  have named : ∀ e ∈ schedule.states, e.rule.key ≠ .null := by
    intro e he
    obtain ⟨name, -, rule⟩ := List.mem_map.mp ((rules e.rule).mp (List.mem_map_of_mem he))
    rw [← rule]
    exact nofun
  refine ⟨(schedule.checked? check).toList ++ asked, fun rule => List.mem_append_right _, ?_,
    fun success v => ?_, fun name hname bears => ?_⟩
  · rw [after]
    exact ⟨name, source, turns, _, _, rfl, sound.runCycle check,
      fun rule => by rw [alike.rules, rules], own, knows'⟩
  · obtain ⟨p, answer, reported, -⟩ := told success
    rw [reported, List.mem_map, (Schedule.runCycle_eq_ok named answer).1, source]
    constructor
    · rintro ⟨u, hu, rfl⟩
      obtain ⟨rule, hrule, hu⟩ := (knows'.mem_known own).mp hu
      exact ⟨rule, hrule, u, hu, rfl⟩
    · rintro ⟨rule, hrule, u, hu, rfl⟩
      exact ⟨u, (knows'.mem_known own).mpr ⟨rule, hrule, hu⟩, rfl⟩
  · -- the rule that the report bears is the one that has been checked
    obtain ⟨p, answer, -, last⟩ := told (success_of_checkedRule? ran bears)
    have some : schedule.states ≠ [] := by
      intro none
      have mem := (rules (Rule.ofName name)).mpr (List.mem_map_of_mem hname)
      rw [Schedule.rules, none] at mem
      cases mem
    rw [last, ← (Schedule.runCycle_eq_ok named answer).2 some, Option.map_eq_some_iff] at bears
    obtain ⟨rule, now, value⟩ := bears
    obtain ⟨other, -, rfl⟩ := List.mem_map.mp ((rules rule).mp (Schedule.mem_rules_of_checked? now))
    obtain rfl : other = name := Value.text.inj value
    exact List.mem_append_left _ (Option.mem_toList.mpr now)

end Analyzer

end LintLedger
