import LintLedger.Proofs.Analyzer.Fatal
import LintLedger.Proofs.Schedule.LastFound
import LintLedger.Proofs.Value.Comparable
import Mathlib

/-!
# Whose findings are kept

A linter that checks its rules by turns keeps what it finds under the rule that it has checked.  If it was
given two rules or more, be they the same, whatever is found in a check bears the rule that is checked
(`isOf_of_mem_runLint`), so that each rule is only ever known to have found what bears it
(`LintState.IsTidy`).  A linter of a single rule keeps under this rule whatever its tool tells of any
(`attributed`).
-/

namespace LintLedger

open Outcome

/-! ### Schedules -/

namespace Schedule

variable {s : Schedule} {ε : Type} {check : Rule → Except ε (List Violation)}

/-- whether all that is known of each rule bears that rule -/
def IsAttributed (s : Schedule) : Prop := ∀ e ∈ s.states, ∀ v ∈ e.found, v.isOf e.rule = true

theorem isAttributed_start {engine : String} {zeroThreshold reducedInterval : ℕ} {rules : List Rule} :
    (start engine zeroThreshold reducedInterval rules).IsAttributed := by
  intro e he v hv
  obtain ⟨r, -, rfl⟩ := List.mem_map.mp he
  cases hv

/-- taking up what was kept leaves each rule with what it found -/
theorem IsAttributed.restore (h : s.IsAttributed) (saved : List SavedState) :
    (s.restore saved).IsAttributed := by
  intro e he v hv
  have kept : (e.rule, e.found) ∈ s.states.map fun e => (e.rule, e.found) := by
    rw [← found_restore saved]
    exact List.mem_map_of_mem he
  obtain ⟨d, hd, same⟩ := List.mem_map.mp kept
  obtain ⟨rule, found⟩ := Prod.mk.inj same
  rw [← rule]
  exact h d hd v (found ▸ hv)

/-- so does a cycle, if its check finds nothing that does not bear the rule whose turn it is -/
theorem IsAttributed.runCycle (h : s.IsAttributed) (own : ∀ r found, s.upcoming? = some r →
    check r = .ok found → ∀ v ∈ found, v.isOf r = true) : (s.runCycle check).2.IsAttributed := by
  cases answer : s.answer? check with
  | none =>
    have same := (runCycle_of_answer?_eq_none answer).1
    intro e he
    exact h e (same ▸ he)
  | some p =>
    obtain ⟨r, found⟩ := p
    obtain ⟨next, checked⟩ := answer?_eq_some_iff.mp answer
    obtain ⟨t, same, ran⟩ := runCycle_of_answer?_eq_some answer
    rw [ran]
    intro e he v hv
    obtain ⟨d, hd, rfl⟩ := List.mem_map.mp he
    by_cases key : d.rule.key = r.key
    · rw [if_pos key] at hv ⊢
      have bears := own r found next checked v hv
      simpa [Violation.isOf, key] using bears
    · rw [if_neg key] at hv ⊢
      exact h d (same ▸ hd) v hv

/-- a schedule that begins again has the rules that it had -/
theorem rules_reset {rules : List Rule} (h : s.rules = Rule.distinct rules) : s.reset.rules = s.rules := by
  have apart : (s.rules.map Rule.key).Nodup := by
    rw [h]
    exact List.pairwise_map.mpr (pairwise_distinctBy Rule.key rules)
  exact rules_start apart

end Schedule

namespace Analyzer

variable {w : Workspace} {a : Analyzer} {runner : Runner} {place : Path} {target : String}
  {options : Options} {s : LintState} {o : ToolOutput} {r : Report} {rule : Rule} {found : List Violation}
  {settings : AnalyzerSettings}

/-! ### Checks of a rule -/

/-- whatever is found in a check of one rule of several bears that rule -/
theorem isOf_of_mem_runLint {count : ℕ} (several : 1 < count)
    (h : (runLint w runner place options count [rule]).1.outcome = .ok found) :
    ∀ v ∈ found, v.isOf rule = true := by
  intro v hv
  obtain ⟨o, -, answer⟩ := exists_of_runLint h
  have asked : askedRules count [rule] = [rule] := if_pos several
  rw [asked] at answer
  unfold lintAnswer at answer
  split at answer
  · cases answer
    cases hv
  · have bears := Output.isAskedOf_of_mem_lintFindings answer hv
    simpa [Output.isAskedOf] using bears

/-- a rule that is listed has the key of what names it -/
theorem key?_of_mem_lintRules {rules : List Rule} (listed : lintRules options = .ok rules)
    (h : rule ∈ rules) : rule.value.key? = some rule.key := by
  unfold lintRules at listed
  split at listed
  · obtain ⟨value, -, named⟩ := exists_of_mem_mapM listed h
    obtain ⟨key, hkey, rfl⟩ := map_eq_ok.mp named
    show value.key.toOption = some key
    rw [hkey]
    rfl
  · cases listed
    obtain ⟨name, -, rfl⟩ := List.mem_map.mp h
    rfl

/-- a finding that bears a rule with a proper name has that name -/
theorem rule_eq_of_isOf {v : Violation} (named : rule.value.key? = some rule.key)
    (proper : Output.isName rule.value = true) (bears : v.isOf rule = true) : v.rule = rule.value := by
  have same : v.rule.key? = rule.value.key? := by
    rw [named]
    simpa [Violation.isOf] using bears
  cases name : rule.value with
  | null =>
    rw [name] at same
    exact Value.eq_null_of_key (eq_ok_of_toOption same)
  | text s =>
    rw [name] at same
    exact Value.eq_text_of_key (eq_ok_of_toOption same)
  | _ =>
    rw [name] at proper
    cases proper

/-! ### Linters in whatever state -/

/-- whether a linter has the rules that its settings list, and keeps under each of them only what bears it,
unless there is a single one -/
structure LintState.IsTidy (settings : AnalyzerSettings) (s : LintState) : Prop where
  listed : lintRules settings.options = .ok s.rules
  rules : s.schedule.rules = Rule.distinct s.rules
  attributed : s.rules.length ≠ 1 → s.schedule.IsAttributed

theorem LintState.IsTidy.mem (h : s.IsTidy settings) (hr : rule ∈ s.schedule.rules) : rule ∈ s.rules := by
  rw [h.rules] at hr
  exact (distinctBy_sublist Rule.key s.rules).subset hr

/-- a run leaves a linter tidy -/
theorem LintState.IsTidy.runLinter (h : s.IsTidy settings) :
    (runLinter w runner place options s).2.2.IsTidy settings := by
  by_cases turns : goesByTurns options = true
  · rw [(runLinter_of_goesByTurns w runner place s turns).2]
    refine ⟨h.listed, (Schedule.isAlike_runCycle _).rules.trans h.rules, ?_⟩
    intro several
    refine (h.attributed several).runCycle ?_
    intro r found next ran
    obtain ⟨e, he, rfl⟩ := Schedule.exists_of_upcoming_eq_some next
    have positive := List.length_pos_of_mem (h.mem (List.mem_map_of_mem he))
    have many : 1 < s.rules.length := by
      dsimp only at several
      omega
    exact isOf_of_mem_runLint many ran
  · rw [(runLinter_of_not_goesByTurns turns).2]
    exact h

/-- a linter in whatever state is tidy -/
theorem Seasoned.isTidy (h : a.Seasoned) (method : a.method = .linter runner s) : s.IsTidy a.settings := by
  obtain ⟨runner', s', method', tidy⟩ := h.exists_of_invariant (I := fun settings s => s.IsTidy settings)
    (fun listed => ⟨listed, Schedule.rules_start_eq_distinct, fun _ => Schedule.isAttributed_start⟩)
    (fun _ _ _ _ tidy => tidy.runLinter)
    (fun saved tidy => ⟨tidy.listed, (Schedule.isAlike_restore saved).rules.trans tidy.rules,
      fun several => (tidy.attributed several).restore saved⟩)
    (fun tidy => ⟨tidy.listed, (Schedule.rules_reset tidy.rules).trans tidy.rules,
      fun _ => Schedule.isAttributed_start⟩)
  cases method.symm.trans method'
  exact tidy

/-! ### What is kept, and what is reported -/

/-- whether a finding that is reported by some source is one that bears a rule -/
structure IsReportedOf (rule : Rule) (source : Source) (v : Violation) : Prop where
  exists_raw : ∃ raw : Violation, raw.isOf rule = true ∧ v = raw.normalForm source
  own : Output.isName rule.value = true → v.rule = rule.value

/-- the normal form of a finding that bears a listed rule -/
theorem LintState.IsTidy.isReportedOf (h : s.IsTidy settings) {raw : Violation} {source : Source}
    (mem : rule ∈ s.rules) (bears : raw.isOf rule = true) :
    IsReportedOf rule source (raw.normalForm source) := by
  refine ⟨⟨raw, bears, rfl⟩, ?_⟩
  intro proper
  have named := rule_eq_of_isOf (key?_of_mem_lintRules h.listed mem) proper bears
  show raw.rule.trimmed = rule.value
  rw [named]
  exact Output.trimmed_of_isName proper

/-- a run by turns that succeeds reports the normal forms of what is known after it -/
theorem exists_known_of_success (method : a.method = .linter runner s)
    (turns : goesByTurns (a.optionsWith options) = true) (ran : (a.execute w target options).1 = .ok r)
    (success : r.success = true) :
    ∀ v ∈ r.violations, ∃ raw ∈ (runLinter w runner (placeOf w target) (a.optionsWith options)
      s).2.2.schedule.known, v = raw.normalForm a.source := by
  obtain ⟨vs, settles, -, reported⟩ := exists_of_success ran success
  obtain ⟨one, found, ended⟩ := outcome_of_settle_eq_ok settles
  rw [find_linter w (placeOf w target) (a.optionsWith options) method] at found
  cases found
  intro v hv
  rw [reported] at hv
  obtain ⟨raw, hraw, rfl⟩ := List.mem_map.mp hv
  exact ⟨raw, mem_known_of_runLinter turns ended raw hraw, rfl⟩

/-- a run by turns of a linter of one rule keeps under it whatever its tool tells of any -/
theorem found_of_single (seasoned : a.Seasoned) (method : a.method = .linter runner s)
    (single : s.rules = [rule]) (named : rule.key ≠ .null)
    (turns : goesByTurns (a.optionsWith options) = true) (hears : a.Hears w target options o)
    (fine : o.status < 2) (answer : lintAnswer w [] o = .ok found) :
    ∃ runner' s', (a.execute w target options).2.method = .linter runner' s' ∧
      s'.schedule.states.map (·.found) = [found] := by
  have tidy := seasoned.isTidy method
  have rules : s.schedule.rules = [rule] := by
    rw [tidy.rules, single]
    rfl
  obtain ⟨e, states, own⟩ := List.map_eq_singleton_iff.mp rules
  obtain ⟨command, runner', after, -⟩ := execute_by_turns method turns hears
  have everything : lintCheck w command s.rules.length o rule = .ok found := by
    rw [single, List.length_singleton, lintCheck_of_single]
    exact (lintOutcome_eq_ok rfl).mpr ⟨fine, answer⟩
  obtain ⟨next, turn⟩ : ∃ r, s.schedule.upcoming? = some r := by
    refine Schedule.exists_upcoming (by simp [states]) ?_
    simpa [states, own] using named
  obtain ⟨d, hd, rfl⟩ := Schedule.exists_of_upcoming_eq_some turn
  obtain rfl : d = e := by simpa [states] using hd
  obtain ⟨t, same, -, checked⟩ :=
    Schedule.runCycle_of_upcoming_eq_some (lintCheck w command s.rules.length o) turn
  rw [own] at checked
  refine ⟨runner', _, by rw [after], ?_⟩
  rw [checked found everything]
  simp [Schedule.record, Schedule.modify, same, states, own]

/-- what is found for everything bears a rule just if that is the rule of every message -/
theorem forall_isOf_iff (answer : lintAnswer w [] o = .ok found) :
    (∀ v ∈ found, v.isOf rule = true) ↔ ∀ p ∈ heardMessages w o, ∀ name,
      Output.messageRule p.2 = .ok name → name.key? = some rule.key := by
  unfold lintAnswer at answer
  unfold heardMessages
  split at answer
  · rename_i blank
    cases answer
    simp [blank]
  · rename_i written
    rw [if_neg written]
    simpa [Violation.isOf] using
      Output.forall_rule_lintFindings_iff (P := fun name => name.key? = some rule.key) answer

/-- **Whose findings are kept.** In whatever state a linter is, its rules are those that its settings list.
Unless there is a single one, each rule is known to have found only what bears it, and so a run by turns that
succeeds reports only what bears one of the rules, by its very name if that has no blanks at its ends.  If there
is a single one, a run by turns whose tool has not failed keeps under that rule all that the tool tells, and so
what is kept bears the rule just if every message does. -/
theorem attributed (seasoned : a.Seasoned) (method : a.method = .linter runner s) :
    lintRules a.settings.options = .ok s.rules ∧
      (s.rules.length ≠ 1 →
        (∀ e ∈ s.schedule.states, e.rule ∈ s.rules ∧ ∀ v ∈ e.found, v.isOf e.rule = true) ∧
        ∀ w target options r, goesByTurns (a.optionsWith options) = true →
          (a.execute w target options).1 = .ok r → r.success = true →
            ∀ v ∈ r.violations, ∃ rule ∈ s.rules, IsReportedOf rule a.source v) ∧
      ∀ rule, s.rules = [rule] → rule.key ≠ .null → ∀ w target options o found,
        goesByTurns (a.optionsWith options) = true → a.Hears w target options o → o.status < 2 →
          lintAnswer w [] o = .ok found →
            (∃ runner' s', (a.execute w target options).2.method = .linter runner' s' ∧
              s'.schedule.states.map (·.found) = [found]) ∧
            ((∀ v ∈ found, v.isOf rule = true) ↔ ∀ p ∈ heardMessages w o, ∀ name,
              Output.messageRule p.2 = .ok name → name.key? = some rule.key) := by
  have tidy := seasoned.isTidy method
  refine ⟨tidy.listed, ?_, ?_⟩
  · intro several
    refine ⟨fun e he => ⟨tidy.mem (List.mem_map_of_mem he), tidy.attributed several e he⟩, ?_⟩
    intro w target options r turns ran success v hv
    obtain ⟨raw, known, rfl⟩ := exists_known_of_success method turns ran success v hv
    have after : (runLinter w runner (placeOf w target) (a.optionsWith options) s).2.2.IsTidy a.settings :=
      tidy.runLinter
    have same : (runLinter w runner (placeOf w target) (a.optionsWith options) s).2.2.rules = s.rules :=
      rules_runLinter
    obtain ⟨e, he, hraw⟩ := Schedule.mem_known.mp known
    have bears := after.attributed (same ▸ several) e he raw hraw
    have mem := same ▸ after.mem (List.mem_map_of_mem he)
    exact ⟨e.rule, mem, tidy.isReportedOf mem bears⟩
  · intro rule single named w target options o found turns hears fine answer
    exact ⟨found_of_single seasoned method single named turns hears fine answer, forall_isOf_iff answer⟩

/-! ### A rule that nobody asked for -/

/-- output about two rules -/
def strayOutput : ToolOutput where
  stdout := "[\x7b\"filePath\":\"a.ts\",\"messages\":[\x7b\"ruleId\":\"no-console\",\"line\":1\x7d,"
    ++ "\x7b\"ruleId\":\"no-var\",\"line\":2\x7d]\x7d]"
  stderr := ""
  status := 1

/-- the rules of a linter, each with the rules that its last findings bear -/
def keptRules (a : Analyzer) : Option (List (Key × List (Option Key))) :=
  a.schedule?.map fun schedule => schedule.states.map fun e => (e.rule.key, e.found.map (·.rule.key?))

/-- a linter of two rules leaves out the one that it was not asked for -/
theorem attributed_two :
    ∃ r, ((linterOn ["no-console", "no-debugger"] strayOutput).execute bareProject "." []).1 = .ok r ∧
      r.violations.length = 1 ∧
      (∀ v ∈ r.violations, v.rule = .text "no-console" ∨ v.rule = .text "no-debugger") ∧
      keptRules ((linterOn ["no-console", "no-debugger"] strayOutput).execute bareProject "." []).2 =
        some [(.text "no-console", [some (.text "no-console")]), (.text "no-debugger", [])] := by
  have ran : ((linterOn ["no-console", "no-debugger"] strayOutput).execute bareProject "." []).1.toOption.map
      (fun r => (r.success, r.violations.length)) = some (true, 1) := by
    decide +kernel
  obtain ⟨r, told, same⟩ := Option.map_eq_some_iff.mp ran
  obtain ⟨success, one⟩ := Prod.mk.inj same
  have told := eq_ok_of_toOption told
  refine ⟨r, told, one, ?_, by decide +kernel⟩
  intro v hv
  obtain ⟨-, several, -⟩ := attributed (a := linterOn ["no-console", "no-debugger"] strayOutput)
    (seasoned_linterOn _) rfl
  obtain ⟨-, reports⟩ := several (by decide)
  obtain ⟨rule, mem, reported⟩ := reports bareProject "." [] r (by decide +kernel) told success v hv
  have mem : rule ∈ [Rule.ofName "no-console", Rule.ofName "no-debugger"] := mem
  rcases List.mem_cons.mp mem with rfl | mem
  · exact .inl (reported.own (by decide +kernel))
  · obtain rfl := List.mem_singleton.mp mem
    exact .inr (reported.own (by decide +kernel))

/-- a linter of one rule keeps another under it, and reports it -/
theorem another_rule_kept :
    (linterOn ["no-console"] strayOutput).Seasoned ∧
      goesByTurns ((linterOn ["no-console"] strayOutput).optionsWith []) = true ∧
      keptRules ((linterOn ["no-console"] strayOutput).execute bareProject "." []).2 =
        some [(.text "no-console", [some (.text "no-console"), some (.text "no-var")])] ∧
      ((linterOn ["no-console"] strayOutput).execute bareProject "." []).1.toOption.map
        (fun r => (r.success, r.violations.map (·.rule.key?))) =
          some (true, [some (.text "no-console"), some (.text "no-var")]) :=
  ⟨seasoned_linterOn _, by decide +kernel, by decide +kernel, by decide +kernel⟩

end Analyzer

end LintLedger
