import LintLedger.Value.Compare
import LintLedger.Value.Show
import Mathlib

/-!
# Values that can be put in order

Some values can be put in order if they are compared as a linear order compares what they measure
(`IsComparable`).  Texts can (`isComparable_of_texts`), and so can whole numbers and truth values
(`isComparable_of_wholes`); a text and a number cannot.  Values may have one key and differ, as numbers do,
but not if one of them is a text (`eq_text_of_key`) or nothing (`eq_null_of_key`).
-/

namespace LintLedger.Value

variable {vs : List Value}

/-- no other value has the key of a text -/
theorem eq_text_of_key {v : Value} {s : String} (h : v.key = .ok (.text s)) : v = .text s := by
  cases v with
  | text t =>
    cases h
    rfl
  | float x =>
    simp only [key, floatKey, Except.ok.injEq] at h
    split at h <;> cases h
  | _ => cases h

/-- no other value has the key of nothing -/
theorem eq_null_of_key {v : Value} (h : v.key = .ok .null) : v = .null := by
  cases v with
  | null => rfl
  | float x =>
    simp only [key, floatKey, Except.ok.injEq] at h
    split at h <;> cases h
  | _ => cases h

/-- whether values are the same, and stand before one another, as a linear order says of their measures -/
def IsMeasuredBy {α : Type} [LinearOrder α] (measure : Value → α) (vs : List Value) : Prop :=
  ∀ a ∈ vs, ∀ b ∈ vs, same a b = decide (measure a = measure b) ∧
    (measure a ≠ measure b → before a b = .ok (decide (measure a < measure b)))

/-- whether values can be put in order -/
def IsComparable (vs : List Value) : Prop :=
  ∃ (α : Type) (_ : LinearOrder α) (measure : Value → α), IsMeasuredBy measure vs

theorem IsComparable.of_subset {ws : List Value} (h : IsComparable vs) (sub : ∀ v ∈ ws, v ∈ vs) :
    IsComparable ws := by
  obtain ⟨α, order, measure, measured⟩ := h
  exact ⟨α, order, measure, fun a ha b hb => measured a (sub a ha) b (sub b hb)⟩

theorem isComparable_of_texts (texts : ∀ v ∈ vs, ∃ s, v = text s) : IsComparable vs := by
  refine ⟨String, inferInstance, display, fun a ha b hb => ?_⟩
  obtain ⟨s, rfl⟩ := texts a ha
  obtain ⟨t, rfl⟩ := texts b hb
  refine ⟨?_, fun _ => by unfold before; rfl⟩
  rw [Bool.eq_iff_iff, decide_eq_true_iff]
  simp [same, key?, key, display, Except.toOption]

/-- the number that a whole number or a truth value is -/
def whole : Value → ℤ
  | int i => i
  | bool b => if b then 1 else 0
  | _ => 0

theorem isComparable_of_wholes (wholes : ∀ v ∈ vs, (∃ i, v = int i) ∨ ∃ b, v = bool b) :
    IsComparable vs := by
  have numbered : ∀ v ∈ vs, v.key = .ok (.number (v.whole : ℚ)) ∧ v.isNumber = true ∧
      ∀ w, same v w = (v.key? == w.key? && v.key?.isSome) ∧
        before v w = if v.isNumber && w.isNumber then .ok (numberBefore v w)
          else .error (.incomparable v.kind w.kind) := by
    intro v hv
    obtain ⟨i, rfl⟩ | ⟨b, rfl⟩ := wholes v hv
    · exact ⟨rfl, rfl, fun w => by cases w <;> exact ⟨by simp [same], by simp [before]⟩⟩
    · refine ⟨?_, rfl, fun w => by cases w <;> exact ⟨by simp [same], by simp [before]⟩⟩
      cases b <;> rfl
  refine ⟨ℤ, inferInstance, whole, fun a ha b hb => ?_⟩
  obtain ⟨ka, na, compare⟩ := numbered a ha
  obtain ⟨kb, nb, -⟩ := numbered b hb
  obtain ⟨equality, order⟩ := compare b
  have qa : a.key? = some (.number (a.whole : ℚ)) := by simp [key?, ka, Except.toOption]
  have qb : b.key? = some (.number (b.whole : ℚ)) := by simp [key?, kb, Except.toOption]
  rw [equality, order, na, nb, qa, qb]
  refine ⟨by simp [beq_eq_decide], fun _ => ?_⟩
  simp [numberBefore, qa, qb]

end LintLedger.Value
