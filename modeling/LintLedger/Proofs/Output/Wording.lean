import LintLedger.Analyzer.Compiler
import LintLedger.Output.Exports
import LintLedger.Proofs.Output.Diagnostics
import LintLedger.Proofs.Output.Messages
import LintLedger.Proofs.Store.Identity
import Mathlib

/-!
# What findings say of their codes

Findings are thinned out by their codes and told apart in a store by what they say: their wording and their
rule.  Neither follows from the other in general.  It does for what is read from the output of the compiler,
the linter and the detector of unused exports: a code is the message itself, or it stands in the message, or
the rule tells that there is only one (`IsWorded`).  That outlasts the loss of blanks at the ends, so two such
findings in normal form that agree in all that a store tells apart have one code (`code_eq_of_agrees`).
-/

namespace LintLedger

open Outcome

/-! ### Rules and wordings in normal form -/

namespace Violation

variable {v : Violation} {source : Source} {s : String}

theorem ruleText_normalForm (h : v.rule = .text s) : (v.normalForm source).ruleText = Text.strip s := by
  have rule : (v.normalForm source).rule = (Value.text s).trimmed := congrArg Value.trimmed h
  unfold ruleText
  rw [rule]
  unfold Value.trimmed
  dsimp only
  by_cases blank : (Text.strip s).isEmpty = true
  · rw [if_pos blank]
    exact (String.isEmpty_iff.mp blank).symm
  · rw [if_neg blank]

theorem wording_normalForm (h : v.message = .text s) (some : Text.strip s ≠ "") :
    (v.normalForm source).wording = .text (Text.strip s) := by
  have message : (v.normalForm source).message = .text (Text.strip s) := by
    change v.message.trimmed = _
    rw [h]
    unfold Value.trimmed
    dsimp only
    rw [if_neg (by simpa using some)]
  unfold wording
  rw [message, if_pos]
  simpa [Value.truthy] using some

/-- a finding whose code is its message is worded by its code, unless that is blank -/
theorem wording_normalForm_of_own (own : v.code = v.message)
    (written : isWritten (v.normalForm source).code = true) :
    (v.normalForm source).wording = (v.normalForm source).code := by
  have code : (v.normalForm source).code = trimField v.message := congrArg trimField own
  rw [code] at written ⊢
  cases message : v.message with
  | text s =>
    rw [message] at written
    refine wording_normalForm message fun blank => ?_
    unfold trimField isWritten at written
    dsimp only at written
    rw [blank] at written
    cases written
  | _ =>
    rw [message] at written
    cases written

/-- a violation without problems has a code that is not blank -/
theorem isWritten_code (h : v.problems = .ok []) : isWritten v.code = true := by
  obtain ⟨category, -, h⟩ := bind_eq_ok.mp h
  obtain ⟨severity, -, h⟩ := bind_eq_ok.mp h
  obtain ⟨source, -, h⟩ := bind_eq_ok.mp h
  have nothing := Except.ok.inj h
  simp only [List.append_eq_nil_iff, unlessMet_eq_nil] at nothing
  exact nothing.1.1.1.1.2

end Violation

/-! ### Codes that are told by what is said -/

namespace Output

variable {root : Path} {output : String} {v w : Violation} {vs : List Violation} {source : Source}

/-- the wording of an unused name -/
def unusedWording (name : String) : String :=
  "Unused export '" ++ name ++ "' - consider removing if not needed"

/-- how the code of a finding of a source goes with its message and its rule -/
inductive IsWorded : Source → Violation → Prop
  /-- a diagnostic of the compiler: the code is the message, and the rule has a number -/
  | diagnostic {v : Violation} {d : Char} {ds : List Char} (own : v.code = v.message)
      (digit : Text.isDigit d = true) (rule : v.rule = .text (String.ofList ('T' :: 'S' :: d :: ds))) :
      IsWorded .typescript v
  /-- there is nothing to compile: that has a code and a rule of its own -/
  | missing (target : Path) : IsWorded .typescript (Analyzer.missingProject target)
  /-- a message of the linter: the code is the message -/
  | message {v : Violation} (own : v.code = v.message) : IsWorded .eslint v
  /-- an unused name: the code is the name, and the message is made of it -/
  | unused {v : Violation} (name : String) (code : v.code = .text name)
      (message : v.message = .text (unusedWording name)) : IsWorded .unusedExports v

/-! ### What is read from output -/

theorem isWorded_of_mem_compilerFindings (h : compilerFindings root output = .ok vs) (hv : v ∈ vs) :
    IsWorded .typescript v := by
  obtain ⟨d, hd, made⟩ := exists_of_mem_mapM h hv
  obtain ⟨line, -, read⟩ := List.mem_filterMap.mp hd
  obtain ⟨p, placed, rfl⟩ := Option.map_eq_some_iff.mp read
  obtain ⟨front, more, -, -, -, -, -, body⟩ := exists_of_located placed
  obtain ⟨blanks, digits, rest, -, -, -, isDigits, -, code⟩ := exists_of_diagnosticBody body
  obtain ⟨digit, digits, rfl⟩ := List.exists_cons_of_ne_nil isDigits.some
  obtain ⟨number, -, made⟩ := bind_eq_ok.mp made
  obtain ⟨column, -, made⟩ := bind_eq_ok.mp made
  cases made
  exact .diagnostic rfl (isDigits.digits digit List.mem_cons_self) (congrArg Value.text code)

theorem isWorded_of_mem_exportFindings (h : exportFindings root output = .ok vs) (hv : v ∈ vs) :
    IsWorded .unusedExports v := by
  obtain ⟨found, hfound, rfl⟩ := map_eq_ok.mp h
  obtain ⟨group, hgroup, hv⟩ := List.mem_flatten.mp hv
  obtain ⟨e, -, he⟩ := exists_of_mem_mapM hfound hgroup
  obtain ⟨name, -, made⟩ := exists_of_mem_mapM he hv
  obtain ⟨line, -, made⟩ := bind_eq_ok.mp made
  obtain ⟨column, -, made⟩ := bind_eq_ok.mp made
  cases made
  exact .unused name rfl rfl

theorem isWorded_of_mem_lintFindings {only : List Rule} (h : lintFindings root only output = .ok vs)
    (hv : v ∈ vs) : IsWorded .eslint v := by
  obtain ⟨p, -, made⟩ := ((mem_lintFindings h).2 v).mp hv
  obtain ⟨-, -, -, -, -, -, -, -, -, -, -, own⟩ := exists_of_messageFinding made
  exact .message own

/-! ### One code for one saying -/

theorem exists_toList_unusedWording (name : String) :
    ∃ cs, (unusedWording name).toList = 'U' :: (cs ++ ['d']) := by
  refine ⟨"nused export '".toList ++ name.toList ++ "' - consider removing if not neede".toList, ?_⟩
  unfold unusedWording
  rw [String.toList_append, String.toList_append]
  have first : "Unused export '".toList = 'U' :: "nused export '".toList := by decide
  have last : "' - consider removing if not needed".toList =
      "' - consider removing if not neede".toList ++ ['d'] := by decide
  rw [first, last, List.cons_append, List.cons_append, ← List.append_assoc]

theorem strip_unusedWording (name : String) : Text.strip (unusedWording name) = unusedWording name := by
  obtain ⟨cs, chars⟩ := exists_toList_unusedWording name
  unfold Text.strip
  rw [chars, Text.trim_eq_self (by decide) (by decide), ← chars, String.ofList_toList]

theorem unusedWording_ne_empty (name : String) : unusedWording name ≠ "" := by
  intro blank
  obtain ⟨cs, chars⟩ := exists_toList_unusedWording name
  rw [blank] at chars
  cases chars

theorem unusedWording_injective : Function.Injective unusedWording := by
  intro a b same
  unfold unusedWording at same
  rw [String.append_left_inj, String.append_right_inj] at same
  exact same

/-- a rule with a number is not that of a project without a file -/
theorem strip_ne_of_isDigit {d : Char} {ds : List Char} (digit : Text.isDigit d = true) :
    Text.strip (String.ofList ('T' :: 'S' :: d :: ds)) ≠ Text.strip "TS-SETUP-001" := by
  intro same
  have chars := congrArg String.toList same
  have other : (Text.strip "TS-SETUP-001").toList = "TS-SETUP-001".toList := by decide +kernel
  unfold Text.strip at chars other
  rw [String.toList_ofList, String.toList_ofList] at chars
  rw [other] at chars
  have begins : Text.trim ('T' :: 'S' :: d :: ds) <+: 'T' :: 'S' :: d :: ds := Text.trim_isPrefix (by decide)
  rw [chars] at begins
  obtain ⟨rest, begins⟩ := begins
  cases begins
  cases digit

/-- findings of one source that agree, once they are in normal form and if they have no problems, have one
code -/
theorem code_eq_of_agrees (hv : IsWorded source v) (hw : IsWorded source w)
    (cleanV : (v.normalForm source).problems = .ok []) (cleanW : (w.normalForm source).problems = .ok [])
    (agrees : (v.normalForm source).Agrees (w.normalForm source)) :
    (v.normalForm source).code = (w.normalForm source).code := by
  have own : v.code = v.message → w.code = w.message →
      (v.normalForm source).code = (w.normalForm source).code := fun first second =>
    (Violation.wording_normalForm_of_own first (Violation.isWritten_code cleanV)).symm.trans
      (agrees.wording.trans (Violation.wording_normalForm_of_own second (Violation.isWritten_code cleanW)))
  have rules := agrees.rule
  cases hv with
  | diagnostic first digit rule =>
    cases hw with
    | diagnostic second _ _ => exact own first second
    | missing target =>
      rw [Violation.ruleText_normalForm rule, Violation.ruleText_normalForm rfl] at rules
      exact absurd rules (strip_ne_of_isDigit digit)
  | missing target =>
    cases hw with
    | diagnostic second digit rule =>
      rw [Violation.ruleText_normalForm rule, Violation.ruleText_normalForm rfl] at rules
      exact absurd rules.symm (strip_ne_of_isDigit digit)
    | missing other => rfl
  | message first =>
    cases hw with
    | message second => exact own first second
  | unused name code message =>
    cases hw with
    | unused other code' message' =>
      have worded : ∀ name, Text.strip (unusedWording name) ≠ "" := fun name =>
        (strip_unusedWording name).symm ▸ unusedWording_ne_empty name
      have same := agrees.wording
      rw [Violation.wording_normalForm message (worded name),
        Violation.wording_normalForm message' (worded other), strip_unusedWording,
        strip_unusedWording] at same
      obtain rfl := unusedWording_injective (Value.text.inj same)
      exact congrArg Violation.trimField (code.trans code'.symm)

end Output

end LintLedger
