import LintLedger.Proofs.Analyzer.NormalForm
import LintLedger.Proofs.Outcome
import LintLedger.Store.Violations
import Mathlib

/-!
# Violations that can be stored

A violation without problems has a text for a file and a code, a whole number for a line and perhaps for
a column, and known classes (`exists_of_problems_eq_nil`).  That says nothing of its message, its rule and
its advice, and not how large its numbers are.  It has a fingerprint just if its message and its rule are
texts or count as nothing (`exists_fingerprint_eq_ok_iff`); and a new row can be made of it just if its
numbers fit the columns of the store, and its rule and advice can be written (`exists_newRow_eq_ok_iff`).
-/

namespace LintLedger

open Outcome

namespace Value

variable {w : Value}

/-- whether a value can stand for a part of what identifies a violation: it is a text, or counts as nothing -/
def IsPart (w : Value) : Prop := w.truthy = true → ∃ s, w = .text s

/-- whether a value can be written into a column of texts -/
def IsWritable : Value → Prop
  | .int i => Store.fits i
  | .list _ | .map _ => False
  | _ => True

theorem IsTrimmable.isPart (h : w.IsTrimmable) : w.IsPart := by
  intro truthy
  cases w with
  | null => cases truthy
  | text s => exact ⟨s, rfl⟩
  | _ => exact h.elim

theorem IsTrimmable.isWritable (h : w.IsTrimmable) : w.IsWritable := by
  cases w <;> trivial

end Value

namespace Violation

variable {v : Violation}

/-- whether the store takes a violation, reported or written, as a value of the types of its fields -/
structure IsStorable (v : Violation) : Prop where
  told : ∃ problems, v.problems = .ok problems
  texts : v.IsTrimmable
  line : ∀ i, v.line = .int i → Store.fits i
  column : ∀ i, v.column = .int i → Store.fits i

/-- whether a row can be made of a violation without problems: its numbers fit, and the values of which
nothing is asked can be written -/
structure IsEnterable (v : Violation) : Prop where
  line : ∀ i, v.line = .int i → Store.fits i
  column : ∀ i, v.column = .int i → Store.fits i
  rule : v.rule.IsWritable
  fix : v.fix.IsWritable

theorem IsStorable.isEnterable (h : v.IsStorable) : v.IsEnterable :=
  ⟨h.line, h.column, h.texts.1.isWritable, h.texts.2.2.isWritable⟩

theorem unlessMet_eq_nil {met : Bool} {p : Problem} : unlessMet met p = [] ↔ met = true := by
  cases met <;> simp [unlessMet]

theorem labelProblem_eq_nil {α : Type} {unknown : Value → Problem} {l : Label α}
    (h : labelProblem unknown l = .ok []) : ∃ a, l = .known a := by
  cases l with
  | known a => exact ⟨a, rfl⟩
  | raw w =>
    obtain ⟨key, -, one⟩ := map_eq_ok.mp h
    cases one

/-- what a violation without problems is made of -/
theorem exists_of_problems_eq_nil (h : v.problems = .ok []) :
    (∃ s, v.file = .text s) ∧ (∃ i, v.line = .int i) ∧ (v.column = .null ∨ ∃ i, v.column = .int i) ∧
      (∃ s, v.code = .text s) ∧ (∃ a, v.category = .known a) ∧ (∃ a, v.severity = .known a) ∧
      ∃ a, v.source = .known a := by
  obtain ⟨category, hcategory, h⟩ := bind_eq_ok.mp h
  obtain ⟨severity, hseverity, h⟩ := bind_eq_ok.mp h
  obtain ⟨source, hsource, h⟩ := bind_eq_ok.mp h
  have nothing := Except.ok.inj h
  simp only [List.append_eq_nil_iff, unlessMet_eq_nil] at nothing
  obtain ⟨⟨⟨⟨⟨⟨⟨file, line⟩, column⟩, code⟩, rfl⟩, rfl⟩, rfl⟩, -⟩ := nothing
  refine ⟨?_, ?_, ?_, ?_, labelProblem_eq_nil hcategory, labelProblem_eq_nil hseverity,
    labelProblem_eq_nil hsource⟩
  · cases hv : v.file <;> simp_all [isWritten]
  · cases hv : v.line <;> simp_all [isWholeFrom]
  · cases hv : v.column <;> simp_all [isColumn, isWholeFrom]
  · cases hv : v.code <;> simp_all [isWritten]

theorem exists_textPart_eq_ok_iff (position : Nat) {w : Value} :
    (∃ s, textPart position w = .ok s) ↔ ∃ s, w = .text s := by
  cases w <;> simp [textPart]

/-- a part that has to be a text, or what stands for it if it counts as nothing -/
def partOr (position : Nat) (w : Value) (absent : String) : Except Fault String :=
  if w.truthy then textPart position w else .ok absent

theorem exists_partOr_eq_ok_iff {position : Nat} {w : Value} {absent : String} :
    (∃ s, partOr position w absent = .ok s) ↔ w.IsPart := by
  unfold partOr Value.IsPart
  by_cases truthy : w.truthy = true
  · simp [truthy, exists_textPart_eq_ok_iff]
  · simp [truthy]

theorem identityParts_eq : v.identityParts = do
    let message ← partOr 2 v.message v.code.display
    let rule ← partOr 3 v.rule ""
    return [v.file.display, v.line.display, message, rule, v.categoryValue.display,
      v.severityValue.display, v.sourceValue.display] := by
  unfold identityParts partOr
  split <;> split <;> rfl

/-- a violation has a fingerprint just if its message and its rule can be parts of it -/
theorem exists_fingerprint_eq_ok_iff : (∃ f, v.fingerprint = .ok f) ↔ v.message.IsPart ∧ v.rule.IsPart := by
  unfold fingerprint identityText
  rw [identityParts_eq]
  constructor
  · rintro ⟨f, h⟩
    obtain ⟨text, h, -⟩ := map_eq_ok.mp h
    obtain ⟨parts, h, -⟩ := map_eq_ok.mp h
    obtain ⟨message, hmessage, h⟩ := bind_eq_ok.mp h
    obtain ⟨rule, hrule, -⟩ := bind_eq_ok.mp h
    exact ⟨exists_partOr_eq_ok_iff.mp ⟨message, hmessage⟩, exists_partOr_eq_ok_iff.mp ⟨rule, hrule⟩⟩
  · rintro ⟨hmessage, hrule⟩
    obtain ⟨message, hmessage⟩ := exists_partOr_eq_ok_iff.mpr hmessage
    obtain ⟨rule, hrule⟩ := exists_partOr_eq_ok_iff.mpr hrule
    rw [hmessage, hrule]
    exact ⟨_, rfl⟩

theorem exists_fingerprint_eq_ok (texts : v.IsTrimmable) : ∃ f, v.fingerprint = .ok f :=
  exists_fingerprint_eq_ok_iff.mpr ⟨texts.2.1.isPart, texts.1.isPart⟩

end Violation

namespace Store

variable {v : Violation} {now : Instant} {f : String} {action : StoreAction}

theorem exists_textColumn?_eq_ok_iff {w : Value} :
    (∃ s, textColumn? action w = .ok s) ↔ w.IsWritable := by
  cases w with
  | int i => by_cases h : fits i <;> simp [textColumn?, Value.IsWritable, wholeColumn, Except.map, h]
  | _ => simp [textColumn?, Value.IsWritable]

theorem countColumn?_of_fits {i : Int} (h : fits i) : countColumn? action (.int i) = .ok (some i) := by
  have whole : wholeColumn i = .ok i := if_pos h
  change (wholeColumn i).map some = _
  rw [whole]
  rfl

theorem countColumn_of_fits {i : Int} (h : fits i) : countColumn action (.int i) = .ok i := by
  unfold countColumn
  rw [countColumn?_of_fits h]
  rfl

theorem fits_of_countColumn? {i : Int} {c : Option Int} (h : countColumn? action (.int i) = .ok c) :
    fits i := by
  change (wholeColumn i).map some = _ at h
  unfold wholeColumn at h
  split at h
  · assumption
  · cases h

/-- a row can be made of a violation without problems just if what has not been asked holds as well -/
theorem exists_newRow_eq_ok_iff (clean : v.problems = .ok []) (part : v.message.IsPart) :
    (∃ row, newRow now f v = .ok row) ↔ v.IsEnterable := by
  obtain ⟨⟨file, hfile⟩, ⟨line, hline⟩, hcolumn, ⟨code, hcode⟩, ⟨category, hcategory⟩,
    ⟨severity, hseverity⟩, ⟨source, hsource⟩⟩ := Violation.exists_of_problems_eq_nil clean
  constructor
  · rintro ⟨row, h⟩
    obtain ⟨_, -, h⟩ := bind_eq_ok.mp h
    obtain ⟨number, hnumber, h⟩ := bind_eq_ok.mp h
    obtain ⟨column, hcolumn, h⟩ := bind_eq_ok.mp h
    obtain ⟨_, -, h⟩ := bind_eq_ok.mp h
    obtain ⟨_, -, h⟩ := bind_eq_ok.mp h
    obtain ⟨_, -, h⟩ := bind_eq_ok.mp h
    obtain ⟨_, -, h⟩ := bind_eq_ok.mp h
    obtain ⟨_, -, h⟩ := bind_eq_ok.mp h
    obtain ⟨rule, hrule, h⟩ := bind_eq_ok.mp h
    obtain ⟨fix, hfix, -⟩ := bind_eq_ok.mp h
    refine ⟨fun i hi => ?_, fun i hi => ?_, exists_textColumn?_eq_ok_iff.mp ⟨rule, hrule⟩,
      exists_textColumn?_eq_ok_iff.mp ⟨fix, hfix⟩⟩
    · rw [hi] at hnumber
      obtain ⟨c, hc, -⟩ := bind_eq_ok.mp hnumber
      exact fits_of_countColumn? hc
    · rw [hi] at hcolumn
      exact fits_of_countColumn? hcolumn
  · intro enterable
    have wording : ∃ s, v.wording = .text s := by
      unfold Violation.wording
      split
      · rename_i truthy
        exact part truthy
      · exact ⟨code, hcode⟩
    have column : ∃ c, countColumn? .storeViolations v.column = .ok c := by
      rcases hcolumn with absent | ⟨i, hi⟩
      · exact ⟨none, by rw [absent]; rfl⟩
      · exact ⟨some i, by rw [hi, countColumn?_of_fits (enterable.column i hi)]⟩
    obtain ⟨wording, hwording⟩ := wording
    obtain ⟨column, hcolumn⟩ := column
    obtain ⟨rule, hrule⟩ := exists_textColumn?_eq_ok_iff.mpr enterable.rule
    obtain ⟨fix, hfix⟩ := exists_textColumn?_eq_ok_iff.mpr enterable.fix
    unfold newRow Violation.categoryValue Violation.severityValue Violation.sourceValue
    dsimp only
    rw [hfile, hline, hwording, hcode, hcategory, hseverity, hsource,
      countColumn_of_fits (enterable.line line hline), hcolumn, hrule, hfix]
    exact ⟨_, rfl⟩

end Store

end LintLedger
