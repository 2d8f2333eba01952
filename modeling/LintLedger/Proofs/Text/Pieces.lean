import LintLedger.Text.Split
import Mathlib

/-!
# Cutting at a character

Pieces without the character at which a text is cut are found again in what is joined with it
(`pieces_intercalate`), and of the other characters of a text none gets lost (`exists_mem_pieces_iff`).
-/

namespace LintLedger.Text

variable {sep c : Char} {cs : List Char}

theorem pieces_of_not_mem (plain : sep ∉ cs) : pieces sep cs = [cs] := by
  induction cs with
  | nil => rfl
  | cons c cs ih =>
    rw [List.mem_cons, not_or] at plain
    rw [pieces, if_neg (Ne.symm plain.1), ih plain.2]

theorem pieces_append (plain : sep ∉ cs) (rest : List Char) :
    pieces sep (cs ++ sep :: rest) = cs :: pieces sep rest := by
  induction cs with
  | nil => rw [List.nil_append, pieces, if_pos rfl]
  | cons c cs ih =>
    rw [List.mem_cons, not_or] at plain
    rw [List.cons_append, pieces, if_neg (Ne.symm plain.1), ih plain.2]

/-- the characters of the pieces are those of the whole, but for the one at which it is cut -/
theorem exists_mem_pieces_iff : (∃ piece ∈ pieces sep cs, c ∈ piece) ↔ c ∈ cs ∧ c ≠ sep := by
  induction cs with
  | nil => simp [pieces]
  | cons d cs ih =>
    by_cases cut : d = sep
    · subst cut
      rw [pieces, if_pos rfl]
      simp only [List.mem_cons, exists_eq_or_imp, List.not_mem_nil, false_or, ih]
      exact ⟨fun h => ⟨.inr h.1, h.2⟩, fun h => ⟨h.1.resolve_left h.2, h.2⟩⟩
    · obtain ⟨first, more, cuts⟩ := List.exists_cons_of_ne_nil (pieces_ne_nil sep cs)
      rw [pieces, if_neg cut, cuts]
      rw [cuts] at ih
      simp only [List.mem_cons, exists_eq_or_imp] at ih ⊢
      rw [or_assoc, ih]
      constructor
      · rintro (rfl | h)
        · exact ⟨.inl rfl, cut⟩
        · exact ⟨.inr h.1, h.2⟩
      · rintro ⟨rfl | h, other⟩
        · exact .inl rfl
        · exact .inr ⟨h, other⟩

/-- what is joined is cut apart again -/
theorem pieces_intercalate {parts : List (List Char)} (some : parts ≠ []) (plain : ∀ part ∈ parts, sep ∉ part) :
    pieces sep (List.intercalate [sep] parts) = parts := by
  induction parts with
  | nil => exact absurd rfl some
  | cons part parts ih =>
    rw [List.forall_mem_cons] at plain
    cases parts with
    | nil => rw [List.intercalate_singleton, pieces_of_not_mem plain.1]
    | cons next parts =>
      rw [List.intercalate_cons_cons, List.append_assoc, List.singleton_append, pieces_append plain.1,
        ih (List.cons_ne_nil next parts) plain.2]

end LintLedger.Text
