import LintLedger.Proofs.Analyzer.NormalForm
import Mathlib

/-!
# What the messages of the linter come to

A run that asks for some rules finds what a run that asks for everything finds of these rules, in the same
order (`lintFindings_only`), so that the findings for single rules are parts of one whole.  Every run reads
output in which the messages are *proper*: with a rule that has no blanks at its ends or none at all, and with
a wording and a line that can be used (`exists_lintFindings_of_isProperOutput`).

A fatal message without a rule is a file that does not parse.  A run that asks for everything finds a syntax
error at its place (`exists_syntaxError_of_isFatal`); a run that asks for some rules finds no syntax errors
at all unless it asks for the rule that stands for them (`rule_of_mem_lintFindings`).
-/

namespace LintLedger

open Outcome

/-- whether a finding bears a rule -/
def Violation.isOf (r : Rule) (v : Violation) : Bool := v.rule.key? = some r.key

namespace Output

variable {root : Path} {only : List Rule} {file output : String} {m : Value} {v : Violation}

/-! ### One message -/

/-- what counts as the line of a message -/
def lineOf (message : Value) : Value :=
  if (fieldIn message "line").truthy then fieldIn message "line" else .int 1

/-- a fatal message without a rule -/
def isFatal (message : Value) : Bool :=
  (fieldIn message "ruleId").kind = .null && (fieldIn message "fatal").truthy

/-- the rule that stands for a file that does not parse -/
def parseError : Value := .text "parse-error"

theorem fieldOr_eq_ok {name : String} {default w : Value} (h : fieldOr m name default = .ok w) :
    w = if (fieldIn m name).truthy then fieldIn m name else default := by
  obtain ⟨written, hwritten, h⟩ := bind_eq_ok.mp h
  rw [← get_eq_ok hwritten]
  cases h
  rfl

/-- what a message comes to that is asked for -/
theorem exists_of_messageFinding {wanted : Option (List Key)}
    (h : messageFinding wanted file m = .ok (some v)) :
    ∃ category severity line, messageRule m = .ok v.rule ∧ isWanted wanted v.rule = .ok true ∧
      ruleClass v.rule = .ok (category, severity) ∧ (lineOf m).toInteger = .ok line ∧
      v.file = .text file ∧ v.line = .int line ∧ v.category = .known category ∧
      v.severity = .known severity ∧ v.code = v.message := by
  obtain ⟨rule, hrule, h⟩ := bind_eq_ok.mp h
  obtain ⟨asked, hasked, h⟩ := bind_eq_ok.mp h
  cases asked with
  | false => cases h
  | true =>
    obtain ⟨wording, -, h⟩ := bind_eq_ok.mp h
    obtain ⟨⟨category, severity⟩, hclass, h⟩ := bind_eq_ok.mp h
    obtain ⟨line, hline, h⟩ := bind_eq_ok.mp h
    obtain ⟨number, hnumber, h⟩ := bind_eq_ok.mp h
    obtain ⟨column, -, h⟩ := bind_eq_ok.mp h
    cases h
    rw [fieldOr_eq_ok hline] at hnumber
    exact ⟨category, severity, number, hrule, hasked, hclass, hnumber, rfl, rfl, rfl, rfl, rfl⟩

theorem messageRule_of_isFatal (fatal : isFatal m = true) {rule : Value}
    (h : messageRule m = .ok rule) : rule = parseError := by
  unfold isFatal at fatal
  rw [Bool.and_eq_true, decide_eq_true_eq] at fatal
  obtain ⟨written, hwritten, h⟩ := bind_eq_ok.mp h
  rw [← get_eq_ok hwritten] at fatal
  split at h
  · obtain ⟨flag, hflag, h⟩ := bind_eq_ok.mp h
    rw [get_eq_ok hflag, fatal.2] at h
    cases h
    rfl
  · obtain ⟨flag, hflag, h⟩ := bind_eq_ok.mp h
    rw [get_eq_ok hflag, fatal.2] at h
    cases h
    rfl
  · rename_i rule named
    cases rule with
    | null => exact absurd rfl named
    | _ => cases fatal.1

/-- the class of a rule is the one that the catalogue has for its name, or that of an unknown rule -/
theorem ruleClass_eq_ok {rule : Value} {category : Category} {severity : Severity}
    (h : ruleClass rule = .ok (category, severity)) :
    (category, severity) = Catalog.unknownLintRule ∨
      ∃ name, rule = .text name ∧ (name, category, severity) ∈ Catalog.lintRules := by
  unfold ruleClass at h
  split at h
  · split at h
    · rename_i name _
      have known := Except.ok.inj h
      unfold Catalog.lintRule at known
      cases found : Catalog.lintRules.lookup name with
      | none =>
        rw [found] at known
        exact .inl known.symm
      | some c =>
        rw [found] at known
        obtain rfl : c = (category, severity) := known
        obtain ⟨before, after, parts, -⟩ := List.lookup_eq_some_iff.mp found
        exact .inr ⟨name, rfl, by rw [parts]; simp⟩
    · obtain ⟨key, -, other⟩ := map_eq_ok.mp h
      exact .inl other.symm
  · exact .inl (Except.ok.inj h).symm

/-- only one rule of the catalogue is about syntax errors -/
theorem rule_of_syntaxError {rule : Value} {severity : Severity}
    (h : ruleClass rule = .ok (.syntaxError, severity)) : rule = parseError := by
  have table : ∀ entry ∈ Catalog.lintRules, entry.2.1 = .syntaxError → entry.1 = "parse-error" := by
    decide
  rcases ruleClass_eq_ok h with unknown | ⟨name, rfl, mem⟩
  · cases unknown
  · rw [show name = "parse-error" from table _ mem rfl]
    rfl

/-! ### Findings for some rules -/

/-- whether a finding bears one of some rules; no rules at all ask for everything -/
def isAskedOf (only : List Rule) (v : Violation) : Bool := only.isEmpty || only.any fun r => v.isOf r

theorem isWanted_eq_isAskedOf (keyed : ∃ k, v.rule.key = .ok k) :
    isWanted (wantedKeys only) v.rule = .ok (isAskedOf only v) := by
  obtain ⟨k, hk⟩ := keyed
  unfold isWanted wantedKeys isAskedOf Violation.isOf Value.key?
  rw [hk]
  cases only with
  | nil => rfl
  | cons r rest =>
    simp only [List.isEmpty_cons, Bool.false_eq_true, if_false, Bool.false_or, Except.map,
      Except.toOption, Option.some.injEq]
    rw [List.contains_eq_any_beq, List.any_map]
    rfl

theorem messageFinding_only {found : Option Violation}
    (h : messageFinding (wantedKeys []) file m = .ok found)
    (keyed : ∀ v, found = some v → ∃ k, v.rule.key = .ok k) :
    messageFinding (wantedKeys only) file m = .ok (found.filter (isAskedOf only)) := by
  obtain ⟨rule, hrule, h⟩ := bind_eq_ok.mp h
  obtain ⟨asked, hasked, h⟩ := bind_eq_ok.mp h
  cases hasked
  obtain ⟨wording, hwording, h⟩ := bind_eq_ok.mp h
  obtain ⟨⟨category, severity⟩, hclass, h⟩ := bind_eq_ok.mp h
  obtain ⟨line, hline, h⟩ := bind_eq_ok.mp h
  obtain ⟨number, hnumber, h⟩ := bind_eq_ok.mp h
  obtain ⟨column, hcolumn, h⟩ := bind_eq_ok.mp h
  cases h
  have wanted : isWanted (wantedKeys only) rule = .ok (isAskedOf only _) :=
    isWanted_eq_isAskedOf (keyed _ rfl)
  refine bind_eq_ok.mpr ⟨rule, hrule, bind_eq_ok.mpr ⟨_, wanted, ?_⟩⟩
  rw [Option.filter_some]
  split
  · rename_i other
    rw [if_neg (by simpa using other)]
    rfl
  · rename_i own
    rw [if_pos (by simpa using own)]
    exact bind_eq_ok.mpr ⟨wording, hwording, bind_eq_ok.mpr ⟨_, hclass, bind_eq_ok.mpr ⟨line, hline,
      bind_eq_ok.mpr ⟨number, hnumber, bind_eq_ok.mpr ⟨column, hcolumn, rfl⟩⟩⟩⟩⟩

theorem fileFindings_only {result : Value} {vs : List Violation}
    (h : fileFindings root (wantedKeys []) result = .ok vs)
    (keyed : ∀ v ∈ vs, ∃ k, v.rule.key = .ok k) :
    fileFindings root (wantedKeys only) result = .ok (vs.filter (isAskedOf only)) := by
  obtain ⟨path, hpath, h⟩ := bind_eq_ok.mp h
  obtain ⟨written, hwritten, h⟩ := bind_eq_ok.mp h
  obtain ⟨messages, hmessages, h⟩ := bind_eq_ok.mp h
  obtain ⟨found, hfound, h⟩ := bind_eq_ok.mp h
  obtain rfl : found.filterMap id = vs := by simpa [pure, Except.pure] using h
  have each := mapM_eq_ok_of_mapM (k := Option.filter (isAskedOf only)) hfound
    fun m _ one hone made => messageFinding_only made fun v hv => keyed v (by simpa [hv] using hone)
  refine bind_eq_ok.mpr ⟨path, hpath, bind_eq_ok.mpr ⟨written, hwritten,
    bind_eq_ok.mpr ⟨messages, hmessages, bind_eq_ok.mpr ⟨_, each, ?_⟩⟩⟩⟩
  rw [List.filter_filterMap, List.filterMap_map]
  rfl

/-- a run that asks for some rules finds what a run that asks for everything finds of them -/
theorem lintFindings_only {vs : List Violation} (h : lintFindings root [] output = .ok vs)
    (keyed : ∀ v ∈ vs, ∃ k, v.rule.key = .ok k) :
    lintFindings root only output = .ok (vs.filter (isAskedOf only)) := by
  obtain ⟨results, hresults, h⟩ := bind_eq_ok.mp h
  obtain ⟨found, hfound, h⟩ := bind_eq_ok.mp h
  obtain rfl : found.flatten = vs := by simpa [pure, Except.pure] using h
  have each := mapM_eq_ok_of_mapM (k := List.filter (isAskedOf only)) hfound
    fun result _ group hgroup made =>
      fileFindings_only made fun v hv => keyed v (List.mem_flatten.mpr ⟨group, hgroup, hv⟩)
  refine bind_eq_ok.mpr ⟨results, hresults, bind_eq_ok.mpr ⟨_, each, ?_⟩⟩
  rw [List.filter_flatten]
  rfl

/-! ### From findings to messages -/

/-- the path of the file that a result is about, as it was written -/
def pathOf (result : Value) : Value :=
  match result with
  | .map es => (Value.find? es "filePath").getD (.text "")
  | _ => .text ""

/-- the file that a result is about, as findings in it name it -/
def fileOf (root : Path) (result : Value) : String := root.textFrom (pathOf result).display

/-- what is found in a file is what is found for its messages, and each of them can be read -/
theorem mem_fileFindings {wanted : Option (List Key)} {result : Value} {vs : List Violation}
    (h : fileFindings root wanted result = .ok vs) :
    (∀ m ∈ messagesOf result, ∃ found, messageFinding wanted (fileOf root result) m = .ok found) ∧
      ∀ v, v ∈ vs ↔
        ∃ m ∈ messagesOf result, messageFinding wanted (fileOf root result) m = .ok (some v) := by
  obtain ⟨path, hpath, h⟩ := bind_eq_ok.mp h
  obtain ⟨written, hwritten, h⟩ := bind_eq_ok.mp h
  obtain ⟨messages, hmessages, h⟩ := bind_eq_ok.mp h
  obtain ⟨found, hfound, h⟩ := bind_eq_ok.mp h
  obtain rfl : found.filterMap id = vs := by simpa [pure, Except.pure] using h
  have read : messagesOf result = messages := by
    simp [messagesOf, hwritten, hmessages, Except.toOption]
  have file : pathOf result = path.getD (.text "") := by
    cases result with
    | map es =>
      cases hpath
      rfl
    | _ => cases hpath
  unfold fileOf
  rw [read, file]
  refine ⟨fun m hm => ?_, fun v => ⟨fun hv => ?_, ?_⟩⟩
  · obtain ⟨one, -, made⟩ := exists_mem_mapM hfound hm
    exact ⟨one, made⟩
  · exact exists_of_mem_mapM hfound (by simpa using hv)
  · rintro ⟨m, hm, made⟩
    obtain ⟨one, hone, made'⟩ := exists_mem_mapM hfound hm
    obtain rfl : some v = one := Except.ok.inj (made.symm.trans made')
    simpa using hone

/-- the messages that the linter wrote, each with the file that it is about -/
def messagesAt (root : Path) (output : String) : List (String × Value) :=
  match lintResults output with
  | .ok results => results.flatMap fun result => (messagesOf result).map (fileOf root result, ·)
  | .error _ => []

/-- what is found is what is found for the messages, and each of them can be read -/
theorem mem_lintFindings {vs : List Violation} (h : lintFindings root only output = .ok vs) :
    (∀ p ∈ messagesAt root output, ∃ found, messageFinding (wantedKeys only) p.1 p.2 = .ok found) ∧
      ∀ v, v ∈ vs ↔
        ∃ p ∈ messagesAt root output, messageFinding (wantedKeys only) p.1 p.2 = .ok (some v) := by
  obtain ⟨results, hresults, h⟩ := bind_eq_ok.mp h
  obtain ⟨found, hfound, h⟩ := bind_eq_ok.mp h
  obtain rfl : found.flatten = vs := by simpa [pure, Except.pure] using h
  unfold messagesAt
  rw [hresults]
  dsimp only
  refine ⟨fun p hp => ?_, fun v => ⟨fun hv => ?_, ?_⟩⟩
  · obtain ⟨result, hresult, hp⟩ := List.mem_flatMap.mp hp
    obtain ⟨m, hm, rfl⟩ := List.mem_map.mp hp
    obtain ⟨group, -, made⟩ := exists_mem_mapM hfound hresult
    exact (mem_fileFindings made).1 m hm
  · obtain ⟨group, hgroup, hv⟩ := List.mem_flatten.mp hv
    obtain ⟨result, hresult, made⟩ := exists_of_mem_mapM hfound hgroup
    obtain ⟨m, hm, one⟩ := ((mem_fileFindings made).2 v).mp hv
    exact ⟨_, List.mem_flatMap.mpr ⟨result, hresult, List.mem_map_of_mem hm⟩, one⟩
  · rintro ⟨p, hp, one⟩
    obtain ⟨result, hresult, hp⟩ := List.mem_flatMap.mp hp
    obtain ⟨m, hm, rfl⟩ := List.mem_map.mp hp
    obtain ⟨group, hgroup, made⟩ := exists_mem_mapM hfound hresult
    exact List.mem_flatten.mpr ⟨group, hgroup, ((mem_fileFindings made).2 v).mpr ⟨m, hm, one⟩⟩

/-- whatever is found bears a rule that was asked for -/
theorem isAskedOf_of_mem_lintFindings {vs : List Violation} (h : lintFindings root only output = .ok vs)
    (hv : v ∈ vs) : isAskedOf only v = true := by
  obtain ⟨p, -, made⟩ := ((mem_lintFindings h).2 v).mp hv
  obtain ⟨category, severity, line, -, asked, -⟩ := exists_of_messageFinding made
  cases only with
  | nil => rfl
  | cons r rest =>
    -- a rule that is compared with others can be looked up
    obtain ⟨k, keyed, -⟩ := map_eq_ok.mp asked
    rw [isWanted_eq_isAskedOf ⟨k, keyed⟩] at asked
    exact Except.ok.inj asked

/-- all that a run for everything finds bears the rules that the messages do -/
theorem forall_rule_lintFindings_iff {vs : List Violation} (h : lintFindings root [] output = .ok vs)
    {P : Value → Prop} : (∀ v ∈ vs, P v.rule) ↔
      ∀ p ∈ messagesAt root output, ∀ rule, messageRule p.2 = .ok rule → P rule := by
  obtain ⟨read, found⟩ := mem_lintFindings h
  constructor
  · intro all p hp rule hrule
    obtain ⟨one, made⟩ := read p hp
    obtain ⟨v, rfl⟩ := (messageFinding_eq_ok made).1 ⟨rule, hrule, rfl⟩
    obtain ⟨category, severity, line, same, -⟩ := exists_of_messageFinding made
    cases hrule.symm.trans same
    exact all v ((found v).mpr ⟨p, hp, made⟩)
  · intro all v hv
    obtain ⟨p, hp, made⟩ := (found v).mp hv
    obtain ⟨category, severity, line, hrule, -⟩ := exists_of_messageFinding made
    exact all p hp v.rule hrule

/-! ### Files that do not parse -/

/-- a run that asks for everything finds a syntax error for each fatal message without a rule -/
theorem exists_syntaxError_of_isFatal {vs : List Violation} (h : lintFindings root [] output = .ok vs)
    (written : (file, m) ∈ messagesAt root output) (fatal : isFatal m = true) :
    ∃ v ∈ vs, v.rule = parseError ∧ v.category = .known .syntaxError ∧ v.file = .text file ∧
      ∃ line, (lineOf m).toInteger = .ok line ∧ v.line = .int line := by
  obtain ⟨read, found⟩ := mem_lintFindings h
  obtain ⟨one, made⟩ := read _ written
  -- the message can be read, so its rule can, and every rule is asked for
  obtain ⟨rule, hrule, -⟩ := bind_eq_ok.mp made
  obtain ⟨v, rfl⟩ := (messageFinding_eq_ok made).1 ⟨rule, hrule, rfl⟩
  obtain ⟨category, severity, line, hrule, -, hclass, hline, hfile, same, kind, -⟩ :=
    exists_of_messageFinding made
  have parse := messageRule_of_isFatal fatal hrule
  rw [parse] at hclass
  cases hclass
  exact ⟨v, (found v).mpr ⟨_, written, made⟩, parse, kind, hfile, line, hline, same⟩

/-- whatever is asked for, a syntax error bears the rule that stands for a file that does not parse, and
that rule was asked for -/
theorem rule_of_mem_lintFindings {vs : List Violation} (h : lintFindings root only output = .ok vs)
    (hv : v ∈ vs) (kind : v.category = .known .syntaxError) :
    v.rule = parseError ∧ isAskedOf only v = true := by
  obtain ⟨p, -, made⟩ := ((mem_lintFindings h).2 v).mp hv
  obtain ⟨category, severity, line, -, -, hclass, -, -, -, same, -⟩ := exists_of_messageFinding made
  rw [kind] at same
  cases same
  exact ⟨rule_of_syntaxError hclass, isAskedOf_of_mem_lintFindings h hv⟩

/-! ### Proper output -/

/-- a rule as the linter names it: a text without blanks at its ends, or nothing -/
def isName : Value → Bool
  | .null => true
  | .text s => s ≠ "" && Text.strip s = s
  | _ => false

/-- a message with a rule as the linter names it, a wording that is a text if it is there, and a number as
its line -/
def isProper (message : Value) : Bool :=
  message.kind = .map && isName (fieldIn message "ruleId") &&
    (!(fieldIn message "message").truthy || decide (fieldIn message "message").IsTrimmable) &&
    (lineOf message).toInteger.isOk

/-- a result with a list of proper messages, or without messages -/
def isProperFile (result : Value) : Bool :=
  match result with
  | .map es =>
    match Value.find? es "messages" with
    | none => true
    | some (.list messages) => messages.all isProper
    | some _ => false
  | _ => false

/-- output that can be read and holds proper messages only -/
def isProperOutput (output : String) : Bool :=
  match lintResults output with
  | .ok results => results.all isProperFile
  | .error _ => false

theorem trimmed_of_isName {rule : Value} (h : isName rule = true) : rule.trimmed = rule := by
  unfold isName at h
  split at h
  · rfl
  · rename_i s
    rw [Bool.and_eq_true, decide_eq_true_eq, decide_eq_true_eq] at h
    unfold Value.trimmed
    dsimp only
    rw [h.2, if_neg (by simpa using h.1)]
  · cases h

theorem exists_key_of_isName {rule : Value} (h : isName rule = true) : ∃ k, rule.key = .ok k := by
  cases rule with
  | null => exact ⟨_, rfl⟩
  | text s => exact ⟨_, rfl⟩
  | _ => cases h

theorem exists_messageRule_of_isName (proper : isName (fieldIn m "ruleId") = true)
    (kind : m.kind = .map) : ∃ rule, messageRule m = .ok rule ∧ isName rule = true := by
  cases m with
  | map es =>
    have flag : ∀ fatal : Value,
        isName (if fatal.truthy then .text "parse-error" else .null) = true := by
      intro fatal
      split
      · decide
      · rfl
    change isName ((Value.find? es "ruleId").getD .null) = true at proper
    cases written : Value.find? es "ruleId" with
    | none => exact ⟨_, bind_eq_ok.mpr ⟨none, congrArg _ written, rfl⟩, flag _⟩
    | some rule =>
      rw [written] at proper
      cases rule with
      | null => exact ⟨_, bind_eq_ok.mpr ⟨some .null, congrArg _ written, rfl⟩, flag _⟩
      | text s => exact ⟨_, bind_eq_ok.mpr ⟨some (.text s), congrArg _ written, rfl⟩, proper⟩
      | _ => cases proper
  | _ => cases kind

theorem exists_ruleClass_of_isName {rule : Value} (h : isName rule = true) :
    ∃ c, ruleClass rule = .ok c := by
  obtain ⟨k, hk⟩ := exists_key_of_isName h
  unfold ruleClass
  split
  · split
    · exact ⟨_, rfl⟩
    · rw [hk]
      exact ⟨_, rfl⟩
  · exact ⟨_, rfl⟩

theorem exists_fieldOr (kind : m.kind = .map) (name : String) (default : Value) :
    fieldOr m name default = .ok (if (fieldIn m name).truthy then fieldIn m name else default) := by
  cases m with
  | map es => rfl
  | _ => cases kind

/-- a run that asks for everything reads a proper message -/
theorem exists_messageFinding_of_isProper (file : String) (proper : isProper m = true) :
    ∃ v, messageFinding (wantedKeys []) file m = .ok (some v) ∧ isName v.rule = true ∧
      v.IsTrimmable := by
  unfold isProper at proper
  simp only [Bool.and_eq_true, Bool.or_eq_true, Bool.not_eq_true', decide_eq_true_eq] at proper
  obtain ⟨⟨⟨kind, named⟩, wording⟩, line⟩ := proper
  obtain ⟨rule, hrule, name⟩ := exists_messageRule_of_isName named kind
  obtain ⟨⟨category, severity⟩, hclass⟩ := exists_ruleClass_of_isName name
  obtain ⟨number, hnumber⟩ := exists_eq_ok.mpr line
  have column : ∃ column, m.get "column" = .ok column := by
    cases m with
    | map es => exact ⟨_, rfl⟩
    | _ => cases kind
  obtain ⟨column, hcolumn⟩ := column
  refine ⟨_, bind_eq_ok.mpr ⟨rule, hrule, bind_eq_ok.mpr ⟨true, rfl, bind_eq_ok.mpr
    ⟨_, exists_fieldOr kind "message" _, bind_eq_ok.mpr ⟨(category, severity), hclass, bind_eq_ok.mpr
      ⟨_, exists_fieldOr kind "line" _, bind_eq_ok.mpr ⟨number, hnumber, bind_eq_ok.mpr
        ⟨column, hcolumn, rfl⟩⟩⟩⟩⟩⟩⟩, name, ?_⟩
  refine finding_isTrimmable.mpr ⟨?_, ?_⟩
  · rw [messageRule_isTrimmable hrule]
    unfold isName at named
    split at named
    · rename_i nothing
      rw [nothing]
      trivial
    · rename_i s text
      rw [text]
      trivial
    · cases named
  · split
    · rename_i truthy
      exact wording.resolve_left (by simp [truthy])
    · trivial

/-- so it does a proper result, all of whose messages are proper -/
theorem exists_fileFindings_of_isProperFile (root : Path) {result : Value}
    (proper : isProperFile result = true) :
    (∀ m ∈ messagesOf result, isProper m = true) ∧
      ∃ vs, fileFindings root (wantedKeys []) result = .ok vs := by
  unfold isProperFile at proper
  split at proper
  · rename_i es
    -- in either case the messages are a list of proper ones
    have listed : ∃ messages, ((Value.find? es "messages").getD (.list [])).items = .ok messages ∧
        ∀ m ∈ messages, isProper m = true := by
      split at proper
      · rename_i none
        exact ⟨[], by rw [none]; rfl, List.forall_mem_nil _⟩
      · rename_i messages some
        exact ⟨messages, by rw [some]; rfl, List.all_eq_true.mp proper⟩
      · cases proper
    obtain ⟨messages, hmessages, all⟩ := listed
    have read : messagesOf (.map es) = messages := by
      simp [messagesOf, Value.get, hmessages, Except.toOption]
    have each : ∀ m ∈ messages, ∃ found,
        messageFinding (wantedKeys []) (fileOf root (.map es)) m = .ok found := by
      intro m hm
      obtain ⟨v, made, -⟩ := exists_messageFinding_of_isProper _ (all m hm)
      exact ⟨_, made⟩
    obtain ⟨found, hfound⟩ := exists_mapM_eq_ok.mpr each
    exact ⟨read ▸ all, _, bind_eq_ok.mpr ⟨Value.find? es "filePath", rfl, bind_eq_ok.mpr
      ⟨Value.find? es "messages", rfl, bind_eq_ok.mpr ⟨messages, hmessages, bind_eq_ok.mpr
        ⟨found, hfound, rfl⟩⟩⟩⟩⟩
  · cases proper

/-- a run that asks for everything reads proper output, and what it finds keeps its rules in its normal
form -/
theorem exists_lintFindings_of_isProperOutput (root : Path) (proper : isProperOutput output = true) :
    ∃ vs, lintFindings root [] output = .ok vs ∧
      ∀ v ∈ vs, isName v.rule = true ∧ v.IsTrimmable := by
  unfold isProperOutput at proper
  split at proper
  · rename_i results hresults
    have each := List.all_eq_true.mp proper
    obtain ⟨found, hfound⟩ := exists_mapM_eq_ok.mpr fun result hresult =>
      (exists_fileFindings_of_isProperFile root (each result hresult)).2
    refine ⟨found.flatten, bind_eq_ok.mpr ⟨results, hresults, bind_eq_ok.mpr ⟨found, hfound, rfl⟩⟩,
      fun v hv => ?_⟩
    obtain ⟨group, hgroup, hv⟩ := List.mem_flatten.mp hv
    obtain ⟨result, hresult, made⟩ := exists_of_mem_mapM hfound hgroup
    obtain ⟨m, hm, one⟩ := ((mem_fileFindings made).2 v).mp hv
    obtain ⟨other, same, fine⟩ := exists_messageFinding_of_isProper (fileOf root result)
      ((exists_fileFindings_of_isProperFile root (each result hresult)).1 m hm)
    cases one.symm.trans same
    exact fine
  · cases proper

end Output

end LintLedger
