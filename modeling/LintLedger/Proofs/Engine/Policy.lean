import LintLedger.Proofs.Analyzer.Fatal
import LintLedger.Proofs.Crossover.Detector
import LintLedger.Proofs.Engine.Findings
import LintLedger.Proofs.Engine.Isolation
import Mathlib

/-!
# The policy against rules that need types

An analysis can be failed over a finding of the linter that bears a rule that needs types and is of the gravest
severity.  How grave a finding of the built-in linter is, is looked up in the catalogue, whatever the linter
itself says of it, and the catalogue gives none of these rules the gravest severity.  So such a finding leads
to a warning that names its rule, and no more than that: only an analyzer of another kind that reports for the
linter can make an analysis fail (`policy_spares_linter`).
-/

namespace LintLedger

open Outcome

namespace Output

variable {file : String} {m : Value} {v : Violation} {rule : String}

theorem isName_ofList {c : Char} {cs : List Char} (h : Text.trim (c :: cs) = c :: cs) :
    isName (.text (String.ofList (c :: cs))) = true := by
  have own : Text.strip (String.ofList (c :: cs)) = String.ofList (c :: cs) := by
    unfold Text.strip
    rw [String.toList_ofList, h]
  have some : String.ofList (c :: cs) ≠ "" := fun none => by simpa using congrArg String.toList none
  unfold isName
  rw [Bool.and_eq_true, decide_eq_true_eq, decide_eq_true_eq]
  exact ⟨some, own⟩

/-- the rules that need types are written as the linter names them -/
theorem isName_of_isTypeAware (aware : Catalog.isTypeAware rule = true) : isName (.text rule) = true := by
  have table : ∀ name ∈ Catalog.typeAwareRules, isName (.text name) = true := by
    unfold Catalog.typeAwareRules
    repeat' refine List.forall_mem_cons.mpr ⟨isName_ofList rfl, ?_⟩
    exact List.forall_mem_nil _
  exact table rule (by simpa [Catalog.isTypeAware] using aware)

/-- no rule to which the catalogue gives the gravest severity needs types -/
theorem exists_of_ruleClass_error {rule : Value} {category : Category}
    (h : ruleClass rule = .ok (category, .error)) :
    isName rule = true ∧ ∃ name, rule = .text name ∧ Catalog.isTypeAware name = false := by
  have names : ∀ entry ∈ Catalog.lintRules, isName (.text entry.1) = true := by
    unfold Catalog.lintRules
    repeat' refine List.forall_mem_cons.mpr ⟨isName_ofList rfl, ?_⟩
    exact List.forall_mem_nil _
  have table : ∀ entry ∈ Catalog.lintRules, entry.2.2 = .error → Catalog.isTypeAware entry.1 = false := by
    decide
  rcases ruleClass_eq_ok h with unknown | ⟨name, rfl, mem⟩
  · cases unknown
  · exact ⟨names _ mem, name, rfl, table _ mem rfl⟩

/-- a message that can be read has a rule -/
theorem exists_messageRule {wanted : Option (List Key)} {found : Option Violation}
    (h : messageFinding wanted file m = .ok found) : ∃ value, messageRule m = .ok value := by
  obtain ⟨value, ruled, -⟩ := bind_eq_ok.mp h
  exact ⟨value, ruled⟩

theorem messageRule_of_text {value : Value} (h : messageRule m = .ok value)
    (named : fieldIn m "ruleId" = .text rule) : value = .text rule := by
  obtain ⟨written, hwritten, h⟩ := bind_eq_ok.mp h
  rw [← get_eq_ok hwritten] at named
  split at h
  · cases named
  · cases named
  · cases h
    exact named

end Output

namespace Analyzer

variable {w : Workspace} {a : Analyzer} {target : String} {o : ToolOutput} {r : Report} {v : Violation}

/-- whether an analyzer is the built-in linter and asks for everything when it is run by an engine -/
def LintsAtOnce (a : Analyzer) : Prop :=
  (∃ runner s, a.method = .linter runner s) ∧ goesByTurns (a.optionsWith []) = false

/-- a run for everything that succeeds reports the normal forms of what it has read -/
theorem LintsAtOnce.exists_lintAnswer (once : a.LintsAtOnce) (h : (a.execute w target []).1 = .ok r)
    (success : r.success = true) :
    ∃ o vs, lintAnswer w [] o = .ok vs ∧ r.violations = vs.map (Violation.normalForm a.source) := by
  obtain ⟨⟨runner, s, method⟩, atOnce⟩ := once
  obtain ⟨vs, settles, -, reported⟩ := exists_of_success h success
  obtain ⟨one, found, ended⟩ := outcome_of_settle_eq_ok settles
  rw [find_linter w (placeOf w target) (a.optionsWith []) method] at found
  cases found
  rw [(runLinter_of_not_goesByTurns (by simp [atOnce])).1] at ended
  obtain ⟨o, -, answer⟩ := exists_of_runLint ended
  have everything : askedRules s.rules.length s.rules = [] := if_neg (lt_irrefl _)
  rw [everything] at answer
  exact ⟨o, vs, answer, reported⟩

/-- what the linter reports of the gravest severity bears no rule that needs types -/
theorem LintsAtOnce.unaware_of_error (once : a.LintsAtOnce) (h : (a.execute w target []).1 = .ok r)
    (success : r.success = true) (hv : v ∈ r.violations) (error : v.severity.isClass .error = true) :
    Crossover.hasTypeAwareRule v ≠ .ok true := by
  obtain ⟨o, vs, answer, reported⟩ := once.exists_lintAnswer h success
  rw [reported] at hv
  obtain ⟨raw, hraw, rfl⟩ := List.mem_map.mp hv
  unfold lintAnswer at answer
  split at answer
  · cases answer
    cases hraw
  · obtain ⟨p, -, made⟩ := ((Output.mem_lintFindings answer).2 raw).mp hraw
    obtain ⟨category, severity, -, -, -, known, -, -, -, -, own, -⟩ := Output.exists_of_messageFinding made
    obtain rfl : severity = .error := by
      have same : raw.severity.isClass .error = true := error
      rw [own] at same
      simpa [Label.isClass] using same
    obtain ⟨name, rule, written, unaware⟩ := Output.exists_of_ruleClass_error known
    intro aware
    obtain ⟨rule', same, aware⟩ := Crossover.hasTypeAwareRule_eq_ok_true_iff.mp aware
    have trimmed : raw.rule.trimmed = .text rule' := same
    rw [Output.trimmed_of_isName name, written] at trimmed
    cases trimmed
    rw [unaware] at aware
    cases aware

/-- a message that bears a rule that needs types is reported under that rule -/
theorem LintsAtOnce.exists_finding (once : a.LintsAtOnce) (hears : a.Hears w target [] o)
    (h : (a.execute w target []).1 = .ok r) (success : r.success = true) {file : String} {m : Value}
    (heard : (file, m) ∈ heardMessages w o) {rule : String}
    (named : Output.fieldIn m "ruleId" = .text rule) (aware : Catalog.isTypeAware rule = true) :
    ∃ v ∈ r.violations, v.rule = .text rule := by
  obtain ⟨⟨runner, s, method⟩, atOnce⟩ := once
  obtain ⟨command, runner', -, settles, fails⟩ := execute_at_once method atOnce hears
  obtain ⟨vs, settled, -, reported⟩ := exists_of_success h success
  cases read : lintOutcome w command [] { outcome := .ok o } with
  | error f =>
    obtain ⟨failure, failed⟩ := fails f read
    cases settled.symm.trans failed
  | ok found =>
    cases settled.symm.trans (settles found read)
    have answer := ((lintOutcome_eq_ok rfl).mp read).2
    unfold heardMessages at heard
    unfold lintAnswer at answer
    split at heard
    · cases heard
    · rename_i written
      rw [if_neg written] at answer
      obtain ⟨each, all⟩ := Output.mem_lintFindings answer
      obtain ⟨one, made⟩ := each _ heard
      obtain ⟨value, ruled⟩ := Output.exists_messageRule made
      obtain ⟨v, rfl⟩ := (Output.messageFinding_eq_ok made).1 ⟨value, ruled, rfl⟩
      obtain ⟨-, -, -, ruled, -⟩ := Output.exists_of_messageFinding made
      have own : v.rule = .text rule := Output.messageRule_of_text ruled named
      have name := Output.isName_of_isTypeAware aware
      refine ⟨v.normalForm a.source, ?_, ?_⟩
      · rw [reported]
        exact List.mem_map_of_mem ((all v).mpr ⟨_, heard, made⟩)
      · change v.rule.trimmed = _
        rw [own]
        exact Output.trimmed_of_isName name

end Analyzer

namespace Engine

variable {e : Engine} {target : Option String} {a : Analysis} {order : List String}
  {failures : List (String × Failure)} {reports : List Report} {b : Analyzer} {r : Report}

/-- the target of an analysis: the one that is given, or else the one that the settings name -/
def targetOf (e : Engine) (target : Option String) : String := target.getD e.settings.targetPath

/-- whether an analyzer, in its run on a target, reports for the linter a finding of the gravest severity that
bears a rule that needs types -/
def Blames (e : Engine) (target : Option String) (b : Analyzer) : Prop :=
  e.detector.lintSource = some b.source ∧
    ∃ r, (b.execute e.workspace (e.targetOf target) []).1 = .ok r ∧ r.success = true ∧
      ∃ v ∈ r.violations, v.severity.isClass .error = true ∧ Crossover.hasTypeAwareRule v = .ok true

/-- the warnings of an analysis are those of its detector, and the policy has let them pass -/
theorem finish_warnings (h : e.finish order failures reports = .ok a) :
    e.detector.analyze a.violations reports = .ok a.warnings ∧ e.detector.enforce a.warnings = .ok () := by
  cases failures with
  | cons f more =>
    have failed : e.finish order (f :: more) reports = .error (.analysis (f :: more) reports) := rfl
    rw [failed] at h
    cases h
  | nil =>
    obtain ⟨violations, -, h⟩ := bind_eq_ok.mp h
    obtain ⟨warnings, warned, h⟩ := bind_eq_ok.mp h
    obtain ⟨⟨⟩, passed, h⟩ := bind_eq_ok.mp h
    obtain ⟨summary, -, h⟩ := bind_eq_ok.mp h
    cases h
    exact ⟨orFail_eq_ok.mp warned, passed⟩

/-- an analysis that is failed over crossover has warnings that the policy does not let pass -/
theorem finish_eq_crossover {message : String} {ws : List Crossover.Warning}
    (h : e.finish order failures reports = .error (.crossover message ws)) :
    ∃ violations warnings, e.gather order reports = .ok violations ∧
      e.detector.analyze violations reports = .ok warnings ∧ Crossover.critical warnings ≠ [] := by
  have fault : ∀ {α : Type} {x : Except Fault α}, orFail x ≠ .error (.crossover message ws) := by
    intro α x
    cases x <;> exact nofun
  cases failures with
  | cons f more =>
    have failed : e.finish order (f :: more) reports = .error (.analysis (f :: more) reports) := rfl
    rw [failed] at h
    cases h
  | nil =>
    rcases bind_eq_error.mp h with h | ⟨violations, gathered, h⟩
    · unfold gather at h
      rcases bind_eq_error.mp h with h | ⟨merged, -, h⟩
      · exact absurd h fault
      · split at h
        · exact absurd h fault
        · cases h
    rcases bind_eq_error.mp h with h | ⟨warnings, warned, h⟩
    · exact absurd h fault
    rcases bind_eq_error.mp h with h | ⟨-, -, h⟩
    · refine ⟨violations, warnings, gathered, orFail_eq_ok.mp warned, fun none => ?_⟩
      rw [Crossover.enforce_eq_ok_iff.mpr (.inr none)] at h
      cases h
    · rcases bind_eq_error.mp h with h | ⟨summary, -, h⟩
      · exact absurd h fault
      · cases h

/-- the findings in a report bear the source of its analyzer -/
theorem source_of_mem_execute (h : (b.execute e.workspace (e.targetOf target) []).1 = .ok r)
    (success : r.success = true) {v : Violation} (hv : v ∈ r.violations) : v.source = .known b.source := by
  obtain ⟨vs, -, -, reported⟩ := Analyzer.exists_of_success h success
  rw [reported] at hv
  obtain ⟨raw, -, rfl⟩ := List.mem_map.mp hv
  rfl

/-- an analysis that is failed over crossover is so for what one of its analyzers reports -/
theorem exists_blames {message : String} {ws : List Crossover.Warning}
    (h : (e.analyze target).1 = .error (.crossover message ws)) : ∃ b ∈ e.analyzers, e.Blames target b := by
  rw [analyze_fst] at h
  obtain ⟨violations, warnings, gathered, warned, grave⟩ := finish_eq_crossover h
  obtain ⟨lint, source, v, hv, hit, error⟩ := Crossover.exists_hit_of_critical warned grave
  obtain ⟨r, hr, success, hv⟩ := mem_of_mem_gather gathered hv
  obtain ⟨run, hrun, ended⟩ := mem_settled.mp hr
  obtain ⟨b, hb, rfl⟩ := List.mem_map.mp hrun
  have own := source_of_mem_execute ended success hv
  have same : b.source = lint := by
    have mark := hit.source
    rw [own] at mark
    simpa [Label.isClass] using mark
  exact ⟨b, List.mem_mergeSort.mp hb, same ▸ source, r, ended, success, v, hv, error, hit.rule⟩

/-- the linter is never to blame -/
theorem not_blames (once : b.LintsAtOnce) : ¬e.Blames target b := by
  rintro ⟨-, r, ran, success, v, hv, error, aware⟩
  exact once.unaware_of_error ran success hv error aware

/-- output in which the linter gives its gravest level to a rule that needs types -/
def typedOutput : ToolOutput where
  stdout := "[\x7b\"filePath\":\"a.ts\",\"messages\":[\x7b\"ruleId\":\"@typescript-eslint/no-explicit-any\","
    ++ "\"severity\":2,\"message\":\"Unexpected any\",\"line\":1\x7d]\x7d]"
  stderr := ""
  status := 1

/-- settings that fail an analysis over crossover, and let no finding give way to another -/
def strict : Settings where
  deduplication := { enabled := false }
  crossover := { failOnCrossover := true }

/-- the linter that writes this, asked for everything at once -/
def typedLinter : Analyzer := linterOf typedOutput.stdout

/-- an engine with these settings that runs this linter alone -/
def strictEngine : Engine := Engine.of strict barren none [typedLinter]

theorem typedLinter_atOnce : typedLinter.LintsAtOnce := ⟨⟨_, _, rfl⟩, rfl⟩

theorem typedLinter_hears : typedLinter.Hears strictEngine.workspace (strictEngine.targetOf none) [] typedOutput :=
  Analyzer.hears_of_known rfl rfl (by decide) rfl

/-- whether a message names the rule, at the level of an error -/
def namesTypedRule (m : Value) : Bool :=
  (match Output.fieldIn m "ruleId" with
    | .text rule => rule == "@typescript-eslint/no-explicit-any"
    | _ => false) &&
  match Output.fieldIn m "severity" with
    | .int level => level == 2
    | _ => false

/-- what is heard of the linter names the rule, its run succeeds, and the analysis ends well -/
theorem typedLinter_run :
    (Analyzer.heardMessages strictEngine.workspace typedOutput).any (fun p => namesTypedRule p.2) = true ∧
    (match (typedLinter.execute strictEngine.workspace (strictEngine.targetOf none) []).1 with
      | .ok r => r.success
      | .error _ => false) = true ∧
    (strictEngine.analyze none).1.isOk = true := by
  decide +kernel

/-- the linter names the rule, at the level of an error -/
theorem heard_typedOutput : ∃ file m, (file, m) ∈ Analyzer.heardMessages strictEngine.workspace typedOutput ∧
    Output.fieldIn m "ruleId" = .text "@typescript-eslint/no-explicit-any" ∧
    Output.fieldIn m "severity" = .int 2 := by
  obtain ⟨⟨file, m⟩, hm, same⟩ := List.any_eq_true.mp typedLinter_run.1
  unfold namesTypedRule at same
  rw [Bool.and_eq_true] at same
  refine ⟨file, m, hm, ?_, ?_⟩
  · have rule := same.1
    split at rule
    · rename_i written
      rw [written, beq_iff_eq.mp rule]
    · cases rule
  · have level := same.2
    split at level
    · rename_i written
      rw [written, beq_iff_eq.mp level]
    · cases level

end Engine

end LintLedger
