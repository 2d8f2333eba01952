import LintLedger.Findings.Summary
import LintLedger.Proofs.Outcome
import Mathlib

/-!
# Classes and their names

A class that is known has a name of its own (`category_name_injective`), so that findings can be counted by
the names of their classes (`IsNaming.count`).  A class that is not known has no name, and a finding has the
names of its classes just if all three are known (`exists_classNames_eq_ok_iff`).
-/

namespace LintLedger

open Outcome

namespace Label

variable {α : Type} {name : α → String} {l : Label α} {s : String}

theorem nameOf_eq_ok_iff : l.nameOf name = .ok s ↔ ∃ a, l = .known a ∧ name a = s := by
  cases l <;> simp [nameOf]

theorem isClass_eq_true_iff [DecidableEq α] {a : α} : l.isClass a = true ↔ l = .known a := by
  cases l <;> simp [isClass]

theorem eq_of_ofValue_eq_raw {ofName? : String → Option α} {value other : Value}
    (h : ofValue ofName? value = .raw other) : value = other := by
  unfold ofValue at h
  split at h
  · split at h <;> cases h
    rfl
  · cases h
    rfl

theorem ofValue_category (c : Category) : ofValue Category.ofName? (.text c.name) = .known c := by
  cases c <;> rfl

theorem ofValue_severity (s : Severity) : ofValue Severity.ofName? (.text s.name) = .known s := by
  cases s <;> rfl

theorem ofValue_source (s : Source) : ofValue Source.ofName? (.text s.name) = .known s := by
  cases s <;> rfl

end Label

namespace Violation

theorem category_name_injective : Function.Injective Category.name := by
  have back : ∀ c : Category, Category.ofName? c.name = some c := by
    intro c
    cases c <;> rfl
  exact fun c d same => Option.some.inj ((back c).symm.trans (same ▸ back d))

theorem severity_name_injective : Function.Injective Severity.name := by
  have back : ∀ s : Severity, Severity.ofName? s.name = some s := by
    intro s
    cases s <;> rfl
  exact fun s t same => Option.some.inj ((back s).symm.trans (same ▸ back t))

theorem source_name_injective : Function.Injective Source.name := by
  have back : ∀ s : Source, Source.ofName? s.name = some s := by
    intro s
    cases s <;> rfl
  exact fun s t same => Option.some.inj ((back s).symm.trans (same ▸ back t))

/-- whether the classes of a finding are known -/
structure IsClassed (v : Violation) : Prop where
  severity : ∃ s, v.severity = .known s
  source : ∃ s, v.source = .known s
  category : ∃ c, v.category = .known c

end Violation

namespace Findings

variable {v : Violation} {vs : List Violation} {names : List ClassNames}

theorem classNames_eq_ok_iff {n : ClassNames} :
    classNames v = .ok n ↔ v.severity.nameOf Severity.name = .ok n.severity ∧
      v.source.nameOf Source.name = .ok n.source ∧ v.category.nameOf Category.name = .ok n.category := by
  constructor
  · intro h
    obtain ⟨severity, hseverity, h⟩ := bind_eq_ok.mp h
    obtain ⟨source, hsource, h⟩ := bind_eq_ok.mp h
    obtain ⟨category, hcategory, h⟩ := bind_eq_ok.mp h
    cases h
    exact ⟨hseverity, hsource, hcategory⟩
  · rintro ⟨hseverity, hsource, hcategory⟩
    unfold classNames
    rw [hseverity, hsource, hcategory]
    rfl

theorem exists_classNames_eq_ok_iff : (∃ n, classNames v = .ok n) ↔ v.IsClassed := by
  simp only [classNames_eq_ok_iff, Label.nameOf_eq_ok_iff]
  constructor
  · rintro ⟨n, ⟨severity, hseverity, -⟩, ⟨source, hsource, -⟩, category, hcategory, -⟩
    exact ⟨⟨severity, hseverity⟩, ⟨source, hsource⟩, category, hcategory⟩
  · rintro ⟨⟨severity, hseverity⟩, ⟨source, hsource⟩, category, hcategory⟩
    exact ⟨⟨_, _, _⟩, ⟨severity, hseverity, rfl⟩, ⟨source, hsource, rfl⟩, category, hcategory, rfl⟩

/-- what findings have as names of one of their classes -/
structure IsNaming {α : Type} (label : Violation → Label α) (name : α → String) (named : ClassNames → String) :
    Prop where
  injective : Function.Injective name
  told : ∀ v n, classNames v = .ok n → (label v).nameOf name = .ok (named n)

theorem isNaming_severity : IsNaming Violation.severity Severity.name ClassNames.severity :=
  ⟨Violation.severity_name_injective, fun _ _ h => (classNames_eq_ok_iff.mp h).1⟩

theorem isNaming_source : IsNaming Violation.source Source.name ClassNames.source :=
  ⟨Violation.source_name_injective, fun _ _ h => (classNames_eq_ok_iff.mp h).2.1⟩

theorem isNaming_category : IsNaming Violation.category Category.name ClassNames.category :=
  ⟨Violation.category_name_injective, fun _ _ h => (classNames_eq_ok_iff.mp h).2.2⟩

/-- a name stands among those of some findings as often as its class among theirs -/
theorem IsNaming.count {α : Type} [DecidableEq α] {label : Violation → Label α} {name : α → String}
    {named : ClassNames → String} (naming : IsNaming label name named) (h : vs.mapM classNames = .ok names)
    (a : α) : (names.map named).count (name a) = vs.countP fun v => (label v).isClass a := by
  have all := mapM_eq_ok.mp h
  clear h
  induction all with
  | nil => rfl
  | cons one _ ih =>
    obtain ⟨b, known, same⟩ := Label.nameOf_eq_ok_iff.mp (naming.told _ _ one)
    rw [List.map_cons, List.count_cons, List.countP_cons, ih, known, ← same]
    simp [Label.isClass, naming.injective.eq_iff]

end Findings

end LintLedger
