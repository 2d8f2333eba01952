import LintLedger.Output.Compiler
import LintLedger.Output.Exports
import LintLedger.Output.Lint
import LintLedger.Proofs.Outcome
import LintLedger.Violation.Normalize
import Mathlib

/-!
# Findings that have a normal form

Rule, message and advice of a finding lose the blanks at their ends before it leaves its analyzer.
That can be done to a text or to nothing at all, and to no other value: findings have a normal form
just if each of them is *trimmable* (`exists_normalizeAll_eq_ok`).  What is read from the output of the
compiler and of the detector of unused exports is always trimmable.  What is read from the output of
the linter is so just if every message that is asked for is *plain* (`lintFindings_isTrimmable_iff`):
the linter may write anything where its rule and its wording belong.
-/

namespace LintLedger

open Outcome

/-- whether a value can lose the blanks at its ends: a text can, and nothing can -/
def Value.IsTrimmable : Value → Prop
  | .null | .text _ => True
  | _ => False

instance Value.decidableIsTrimmable : DecidablePred Value.IsTrimmable
  | .null | .text _ => isTrue trivial
  | .bool _ | .int _ | .float _ | .date _ | .time _ | .list _ | .map _ => isFalse id

/-- a value without the blanks at its ends, and nothing if only blanks were there -/
def Value.trimmed : Value → Value
  | .text s => if (Text.strip s).isEmpty then .null else .text (Text.strip s)
  | v => v

theorem Value.stripped_eq_ok {v w : Value} : v.stripped = .ok w ↔ v.IsTrimmable ∧ w = v.trimmed := by
  cases v with
  | null | text s =>
    simp only [stripped, IsTrimmable, trimmed, Except.ok.injEq, true_and]
    exact eq_comm
  | _ => simp [stripped, IsTrimmable]

theorem Value.isTrimmable_ofText? (s : Option String) : (ofText? s).IsTrimmable := by
  cases s <;> trivial

namespace Violation

/-- whether a finding has a normal form -/
def IsTrimmable (v : Violation) : Prop :=
  v.rule.IsTrimmable ∧ v.message.IsTrimmable ∧ v.fix.IsTrimmable

/-- what a trimmable finding of a source becomes -/
def normalForm (source : Source) (v : Violation) : Violation :=
  { v with
    file := trimField v.file
    code := trimField v.code
    rule := v.rule.trimmed
    message := v.message.trimmed
    fix := v.fix.trimmed
    source := .known source }

theorem normalize_eq_ok {source : Source} {v w : Violation} :
    v.normalize source = .ok w ↔ v.IsTrimmable ∧ w = v.normalForm source := by
  unfold normalize
  constructor
  · intro h
    obtain ⟨rule, hrule, h⟩ := bind_eq_ok.mp h
    obtain ⟨message, hmessage, h⟩ := bind_eq_ok.mp h
    obtain ⟨fix, hfix, h⟩ := bind_eq_ok.mp h
    obtain ⟨rule, rfl⟩ := Value.stripped_eq_ok.mp hrule
    obtain ⟨message, rfl⟩ := Value.stripped_eq_ok.mp hmessage
    obtain ⟨fix, rfl⟩ := Value.stripped_eq_ok.mp hfix
    cases h
    exact ⟨⟨rule, message, fix⟩, rfl⟩
  · rintro ⟨⟨rule, message, fix⟩, rfl⟩
    rw [Value.stripped_eq_ok.mpr ⟨rule, rfl⟩, Value.stripped_eq_ok.mpr ⟨message, rfl⟩,
      Value.stripped_eq_ok.mpr ⟨fix, rfl⟩]
    rfl

/-- findings have normal forms just if each of them is trimmable -/
theorem normalizeAll_eq_ok {source : Source} {vs ws : List Violation} :
    normalizeAll source vs = .ok ws ↔ (∀ v ∈ vs, v.IsTrimmable) ∧ ws = vs.map (normalForm source) :=
  mapM_eq_ok_map fun _ _ => normalize_eq_ok

theorem exists_normalizeAll_eq_ok (source : Source) {vs : List Violation} :
    (∃ ws, normalizeAll source vs = .ok ws) ↔ ∀ v ∈ vs, v.IsTrimmable := by
  simp [normalizeAll_eq_ok]

end Violation

namespace Output

theorem finding_isTrimmable {file line code rule message column : Value} {category : Category}
    {severity : Severity} :
    (finding file line code category severity rule message column).IsTrimmable ↔
      rule.IsTrimmable ∧ message.IsTrimmable := by
  have hfix := Value.isTrimmable_ofText? (Catalog.fixFor? category)
  constructor
  · rintro ⟨hrule, hmessage, -⟩
    exact ⟨hrule, hmessage⟩
  · rintro ⟨hrule, hmessage⟩
    exact ⟨hrule, hmessage, hfix⟩

/-! ### Compiler and unused exports -/

theorem compilerFindings_isTrimmable {root : Path} {output : String} {vs : List Violation}
    (h : compilerFindings root output = .ok vs) : ∀ v ∈ vs, v.IsTrimmable := by
  intro v hv
  obtain ⟨d, -, hd⟩ := exists_of_mem_mapM h hv
  obtain ⟨line, -, hd⟩ := bind_eq_ok.mp hd
  obtain ⟨column, -, hd⟩ := bind_eq_ok.mp hd
  cases hd
  exact finding_isTrimmable.mpr ⟨trivial, trivial⟩

theorem exportFindings_isTrimmable {root : Path} {output : String} {vs : List Violation}
    (h : exportFindings root output = .ok vs) : ∀ v ∈ vs, v.IsTrimmable := by
  intro v hv
  obtain ⟨found, hfound, rfl⟩ := map_eq_ok.mp h
  obtain ⟨group, hgroup, hv⟩ := List.mem_flatten.mp hv
  obtain ⟨e, -, he⟩ := exists_of_mem_mapM hfound hgroup
  obtain ⟨name, -, hname⟩ := exists_of_mem_mapM he hv
  obtain ⟨line, -, hname⟩ := bind_eq_ok.mp hname
  obtain ⟨column, -, hname⟩ := bind_eq_ok.mp hname
  cases hname
  exact finding_isTrimmable.mpr ⟨trivial, trivial⟩

/-! ### Messages of the linter -/

/-- what a message holds under a name -/
def fieldIn (message : Value) (name : String) : Value :=
  match message with
  | .map es => (Value.find? es name).getD .null
  | _ => .null

/-- a message with a text or nothing where its rule belongs, and a text or nothing that counts as a
wording where its wording belongs -/
def IsPlain (message : Value) : Prop :=
  (fieldIn message "ruleId").IsTrimmable ∧
    ((fieldIn message "message").truthy = true → (fieldIn message "message").IsTrimmable)

instance : DecidablePred IsPlain := fun message =>
  inferInstanceAs (Decidable ((fieldIn message "ruleId").IsTrimmable ∧
    ((fieldIn message "message").truthy = true → (fieldIn message "message").IsTrimmable)))

/-- whether a message can be read and belongs to the rules that are asked for -/
def IsAsked (only : List Rule) (message : Value) : Prop :=
  ∃ rule, messageRule message = .ok rule ∧ isWanted (wantedKeys only) rule = .ok true

/-- the messages that the linter wrote about one file -/
def messagesOf (result : Value) : List Value :=
  match result.get "messages" with
  | .ok messages => ((messages.getD (.list [])).items.toOption).getD []
  | .error _ => []

/-- all messages that the linter wrote -/
def lintMessages (output : String) : List Value :=
  match lintResults output with
  | .ok results => results.flatMap messagesOf
  | .error _ => []

theorem get_eq_ok {message : Value} {name : String} {v : Option Value}
    (h : message.get name = .ok v) : v.getD .null = fieldIn message name := by
  cases message with
  | map es =>
    cases h
    rfl
  | _ => cases h

theorem messageRule_isTrimmable {message rule : Value} (h : messageRule message = .ok rule) :
    rule.IsTrimmable ↔ (fieldIn message "ruleId").IsTrimmable := by
  obtain ⟨written, hwritten, h⟩ := bind_eq_ok.mp h
  rw [← get_eq_ok hwritten]
  split at h
  · obtain ⟨fatal, -, h⟩ := bind_eq_ok.mp h
    cases h
    split <;> exact ⟨fun _ => trivial, fun _ => trivial⟩
  · obtain ⟨fatal, -, h⟩ := bind_eq_ok.mp h
    cases h
    split <;> exact ⟨fun _ => trivial, fun _ => trivial⟩
  · cases h
    rfl

theorem fieldOr_isTrimmable {message v : Value} {name s : String}
    (h : fieldOr message name (.text s) = .ok v) :
    v.IsTrimmable ↔ ((fieldIn message name).truthy = true → (fieldIn message name).IsTrimmable) := by
  obtain ⟨written, hwritten, h⟩ := bind_eq_ok.mp h
  rw [← get_eq_ok hwritten]
  cases h
  by_cases counts : (written.getD .null).truthy = true
  · simp [counts]
  · simp [counts, Value.IsTrimmable]

/-- a message that is asked for gives one finding, as trimmable as the message is plain -/
theorem messageFinding_eq_ok {only : List Rule} {file : String} {message : Value}
    {found : Option Violation} (h : messageFinding (wantedKeys only) file message = .ok found) :
    (IsAsked only message → ∃ v, found = some v) ∧
      ∀ v, found = some v → IsAsked only message ∧ (v.IsTrimmable ↔ IsPlain message) := by
  obtain ⟨rule, hrule, h⟩ := bind_eq_ok.mp h
  obtain ⟨wanted, hwanted, h⟩ := bind_eq_ok.mp h
  cases wanted with
  | false =>
    obtain rfl : none = found := by simpa [pure, Except.pure] using h
    refine ⟨?_, by simp⟩
    rintro ⟨other, hother, asked⟩
    rw [hrule] at hother
    cases hother
    rw [hwanted] at asked
    cases asked
  | true =>
    obtain ⟨wording, hwording, h⟩ := bind_eq_ok.mp h
    obtain ⟨⟨category, severity⟩, -, h⟩ := bind_eq_ok.mp h
    obtain ⟨line, -, h⟩ := bind_eq_ok.mp h
    obtain ⟨number, -, h⟩ := bind_eq_ok.mp h
    obtain ⟨column, -, h⟩ := bind_eq_ok.mp h
    cases h
    refine ⟨fun _ => ⟨_, rfl⟩, ?_⟩
    rintro v ⟨⟩
    refine ⟨⟨rule, hrule, hwanted⟩, ?_⟩
    rw [finding_isTrimmable, messageRule_isTrimmable hrule, fieldOr_isTrimmable hwording]
    rfl

theorem fileFindings_isTrimmable_iff {root : Path} {only : List Rule} {result : Value}
    {vs : List Violation} (h : fileFindings root (wantedKeys only) result = .ok vs) :
    (∀ v ∈ vs, v.IsTrimmable) ↔ ∀ m ∈ messagesOf result, IsAsked only m → IsPlain m := by
  obtain ⟨path, -, h⟩ := bind_eq_ok.mp h
  obtain ⟨written, hwritten, h⟩ := bind_eq_ok.mp h
  obtain ⟨messages, hmessages, h⟩ := bind_eq_ok.mp h
  obtain ⟨found, hfound, h⟩ := bind_eq_ok.mp h
  obtain rfl : found.filterMap id = vs := by simpa [pure, Except.pure] using h
  have read : messagesOf result = messages := by
    simp [messagesOf, hwritten, hmessages, Except.toOption]
  rw [read]
  constructor
  · intro all m hm asked
    obtain ⟨one, hone, made⟩ := exists_mem_mapM hfound hm
    obtain ⟨v, rfl⟩ := (messageFinding_eq_ok made).1 asked
    exact ((messageFinding_eq_ok made).2 v rfl).2.mp (all v (by simpa using hone))
  · intro all v hv
    obtain ⟨m, hm, made⟩ := exists_of_mem_mapM hfound (by simpa using hv)
    obtain ⟨asked, same⟩ := (messageFinding_eq_ok made).2 v rfl
    exact same.mpr (all m hm asked)

/-- what the linter found has a normal form just if every message that was asked for is plain -/
theorem lintFindings_isTrimmable_iff {root : Path} {only : List Rule} {output : String}
    {vs : List Violation} (h : lintFindings root only output = .ok vs) :
    (∀ v ∈ vs, v.IsTrimmable) ↔ ∀ m ∈ lintMessages output, IsAsked only m → IsPlain m := by
  obtain ⟨results, hresults, h⟩ := bind_eq_ok.mp h
  obtain ⟨found, hfound, h⟩ := bind_eq_ok.mp h
  obtain rfl : found.flatten = vs := by simpa [pure, Except.pure] using h
  have read : lintMessages output = results.flatMap messagesOf := by
    simp [lintMessages, hresults]
  rw [read]
  constructor
  · intro all m hm
    obtain ⟨result, hresult, hm⟩ := List.mem_flatMap.mp hm
    obtain ⟨group, hgroup, made⟩ := exists_mem_mapM hfound hresult
    refine (fileFindings_isTrimmable_iff made).mp (fun v hv => ?_) m hm
    exact all v (List.mem_flatten.mpr ⟨group, hgroup, hv⟩)
  · intro all v hv
    obtain ⟨group, hgroup, hv⟩ := List.mem_flatten.mp hv
    obtain ⟨result, hresult, made⟩ := exists_of_mem_mapM hfound hgroup
    refine (fileFindings_isTrimmable_iff made).mpr (fun m hm => ?_) v hv
    exact all m (List.mem_flatMap.mpr ⟨result, hresult, hm⟩)

end Output

end LintLedger
