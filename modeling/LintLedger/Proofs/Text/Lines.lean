import LintLedger.Text.Blank
import LintLedger.Text.Digit
import LintLedger.Text.Lines
import Mathlib

/-!
# Lines that are joined and cut again

Lines without line ends that are joined by line feeds are cut into the same lines again, an empty last one
apart (`lines_intercalate`).  Of a line, blanks are only taken away in front of its first part and behind its
last one, if these are not blank (`trim_append`), and none if they are tidy (`IsTidy`).
-/

namespace LintLedger.Text

variable {c d : Char} {cs line front back : List Char} {ls : List (List Char)}

/-! ### Blanks at the ends -/

theorem dropBlanksEnd_eq_rdropWhile (cs : List Char) : dropBlanksEnd cs = cs.rdropWhile isBlank := rfl

/-- of characters that begin with no blank, only some at the end are taken away -/
theorem trim_isPrefix (first : isBlank c = false) : trim (c :: cs) <+: c :: cs := by
  unfold trim
  rw [dropBlanks_cons first, dropBlanksEnd_eq_rdropWhile]
  exact List.rdropWhile_prefix ..

/-- of characters that begin and end with no blank, none is taken away -/
theorem trim_eq_self (first : isBlank c = false) (last : isBlank d = false) :
    trim (c :: (cs ++ [d])) = c :: (cs ++ [d]) := by
  unfold trim
  rw [dropBlanks_cons first, dropBlanksEnd_eq_rdropWhile, ← List.cons_append]
  exact List.rdropWhile_concat_neg _ _ _ (by simp [last])

/-- what is taken away are the blanks at both ends -/
theorem exists_trim_eq (cs : List Char) : ∃ left right, cs = left ++ trim cs ++ right := by
  have end' : dropBlanksEnd (dropBlanks cs) <+: dropBlanks cs := List.rdropWhile_prefix ..
  obtain ⟨right, back⟩ := end'
  refine ⟨cs.takeWhile isBlank, right, ?_⟩
  unfold trim
  rw [List.append_assoc, back]
  exact List.takeWhile_append_dropWhile.symm

/-- what is left begins with no blank -/
theorem exists_head_trim (some : trim cs ≠ []) : ∃ c rest, trim cs = c :: rest ∧ isBlank c = false := by
  obtain ⟨c, rest, own⟩ := List.exists_cons_of_ne_nil some
  refine ⟨c, rest, own, ?_⟩
  have end' : trim cs <+: dropBlanks cs := List.rdropWhile_prefix ..
  rw [own] at end'
  obtain ⟨more, whole⟩ := end'
  have first := List.head?_dropWhile_not isBlank cs
  rw [show cs.dropWhile isBlank = c :: (rest ++ more) from whole.symm] at first
  exact first

/-! ### Characters that are no blanks -/

theorem mem_dropBlanks (hc : c ∈ cs) (filled : isBlank c = false) : c ∈ dropBlanks cs := by
  rw [← List.takeWhile_append_dropWhile (p := isBlank) (l := cs)] at hc
  rcases List.mem_append.mp hc with blank | kept
  · exact absurd (List.mem_takeWhile_imp blank) (by simp [filled])
  · exact kept

theorem mem_dropBlanksEnd (hc : c ∈ cs) (filled : isBlank c = false) : c ∈ dropBlanksEnd cs := by
  have kept := mem_dropBlanks (List.mem_reverse.mpr hc) filled
  exact List.mem_reverse.mpr kept

/-- something is left just if some character is no blank -/
theorem trim_ne_nil_iff : trim cs ≠ [] ↔ ∃ c ∈ cs, isBlank c = false := by
  constructor
  · intro some
    obtain ⟨c, rest, first, filled⟩ := exists_head_trim some
    obtain ⟨left, right, whole⟩ := exists_trim_eq cs
    refine ⟨c, ?_, filled⟩
    rw [whole, first]
    simp
  · rintro ⟨c, hc, filled⟩
    exact List.ne_nil_of_mem (mem_dropBlanksEnd (mem_dropBlanks hc filled) filled)

theorem dropBlanks_ne_nil_iff : dropBlanks cs ≠ [] ↔ ∃ c ∈ cs, isBlank c = false := by
  constructor
  · intro some
    by_contra! blank
    exact some (List.dropWhile_eq_nil_iff.mpr fun c hc => Bool.eq_true_of_not_eq_false (blank c hc))
  · rintro ⟨c, hc, filled⟩
    exact List.ne_nil_of_mem (mem_dropBlanks hc filled)

theorem dropBlanks_blanks_append (blank : ∀ c ∈ front, isBlank c = true) (filled : isBlank c = false) :
    dropBlanks (front ++ c :: cs) = c :: cs := by
  unfold dropBlanks
  rw [List.dropWhile_append_of_pos blank]
  exact dropBlanks_cons filled

theorem dropBlanks_append (filled : ∃ c ∈ front, isBlank c = false) (cs : List Char) :
    dropBlanks (front ++ cs) = dropBlanks front ++ cs := by
  have some : ¬(front.dropWhile isBlank).isEmpty = true := mt List.isEmpty_iff.mp (dropBlanks_ne_nil_iff.mpr filled)
  unfold dropBlanks
  rw [List.dropWhile_append, if_neg some]

theorem dropBlanksEnd_append (filled : ∃ c ∈ back, isBlank c = false) (cs : List Char) :
    dropBlanksEnd (cs ++ back) = cs ++ dropBlanksEnd back := by
  obtain ⟨c, hc, own⟩ := filled
  have reversed := dropBlanks_append ⟨c, List.mem_reverse.mpr hc, own⟩ cs.reverse
  unfold dropBlanks at reversed
  unfold dropBlanksEnd
  rw [List.reverse_append, reversed, List.reverse_append, List.reverse_reverse]

/-- nothing is taken away from what stands between characters that are not all blank -/
theorem trim_append (mid : List Char) (front' : ∃ c ∈ front, isBlank c = false)
    (back' : ∃ c ∈ back, isBlank c = false) :
    trim (front ++ mid ++ back) = dropBlanks front ++ mid ++ dropBlanksEnd back := by
  unfold trim
  rw [List.append_assoc, dropBlanks_append front', ← List.append_assoc, dropBlanksEnd_append back']

/-- a word that begins and ends with no blank stands in what is left just as it stood in all of it -/
theorem isInfix_trim {word : List Char} (first : isBlank c = false) (last : isBlank d = false)
    (h : c :: (word ++ [d]) <:+: cs) : c :: (word ++ [d]) <:+: trim cs := by
  obtain ⟨front, back, rfl⟩ := h
  have begins : ∃ left, dropBlanks (front ++ c :: (word ++ d :: back)) = left ++ c :: (word ++ d :: back) := by
    by_cases filled : ∃ c ∈ front, isBlank c = false
    · exact ⟨dropBlanks front, dropBlanks_append filled _⟩
    · refine ⟨[], dropBlanks_blanks_append (fun b hb => ?_) first⟩
      exact Bool.eq_true_of_not_eq_false fun own => filled ⟨b, hb, own⟩
  obtain ⟨left, begins⟩ := begins
  have ends : dropBlanksEnd (d :: back) <+: d :: back := List.rdropWhile_prefix ..
  have some : dropBlanksEnd (d :: back) ≠ [] := List.ne_nil_of_mem (mem_dropBlanksEnd List.mem_cons_self last)
  obtain ⟨e, right, kept⟩ := List.exists_cons_of_ne_nil some
  rw [kept, List.cons_prefix_cons] at ends
  obtain ⟨rfl, -⟩ := ends
  refine ⟨left, right, ?_⟩
  unfold trim
  have whole : front ++ c :: (word ++ [e]) ++ back = front ++ c :: (word ++ e :: back) := by simp
  rw [whole, begins]
  have cut := dropBlanksEnd_append ⟨e, List.mem_cons_self (l := back), last⟩ (left ++ c :: word)
  rw [kept] at cut
  simpa using cut.symm

/-! ### Tidy texts -/

/-- a text of one line that is not empty and has no blanks at its ends -/
structure IsTidy (s : String) : Prop where
  some : s ≠ ""
  trimmed : strip s = s
  oneLine : ∀ c ∈ s.toList, isLineEnd c = false

instance (s : String) : Decidable (IsTidy s) :=
  decidable_of_iff (s ≠ "" ∧ strip s = s ∧ s.toList.any isLineEnd = false)
    ⟨fun h => ⟨h.1, h.2.1, by simpa using h.2.2⟩, fun h => ⟨h.some, h.trimmed, by simpa using h.oneLine⟩⟩

theorem IsTidy.toList_ne_nil {s : String} (tidy : IsTidy s) : s.toList ≠ [] := by
  simpa using tidy.some

theorem IsTidy.trim_toList {s : String} (tidy : IsTidy s) : trim s.toList = s.toList := by
  have whole := congrArg String.toList tidy.trimmed
  rwa [strip, String.toList_ofList] at whole

theorem IsTidy.dropBlanks_toList {s : String} (tidy : IsTidy s) : dropBlanks s.toList = s.toList := by
  have trimmed := tidy.trim_toList
  obtain ⟨c, rest, first, filled⟩ := exists_head_trim (trimmed.symm ▸ tidy.toList_ne_nil)
  rw [trimmed] at first
  rw [first]
  exact dropBlanks_cons filled

theorem IsTidy.dropBlanksEnd_toList {s : String} (tidy : IsTidy s) : dropBlanksEnd s.toList = s.toList := by
  have trimmed := tidy.trim_toList
  unfold trim at trimmed
  rwa [tidy.dropBlanks_toList] at trimmed

theorem IsTidy.exists_filled {s : String} (tidy : IsTidy s) : ∃ c ∈ s.toList, isBlank c = false :=
  trim_ne_nil_iff.mp (tidy.trim_toList.symm ▸ tidy.toList_ne_nil)

/-- what stands between tidy texts makes one tidy text of them, if it ends no line -/
theorem IsTidy.append {a b : String} (first : IsTidy a) (last : IsTidy b) {mid : String}
    (plain : ∀ c ∈ mid.toList, isLineEnd c = false) : IsTidy (a ++ mid ++ b) := by
  refine ⟨?_, ?_, ?_⟩
  · intro none
    have chars := congrArg String.toList none
    rw [String.toList_append, String.toList_append] at chars
    exact last.toList_ne_nil (List.append_eq_nil_iff.mp chars).2
  · unfold strip
    rw [String.toList_append, String.toList_append, trim_append _ first.exists_filled last.exists_filled,
      first.dropBlanks_toList, last.dropBlanksEnd_toList, ← String.toList_append, ← String.toList_append,
      String.ofList_toList]
  · rw [String.toList_append, String.toList_append]
    simp only [List.forall_mem_append]
    exact ⟨⟨first.oneLine, plain⟩, last.oneLine⟩

/-! ### Line ends -/

/-- no digit ends a line -/
theorem isLineEnd_of_isDigit (h : isDigit c = true) : isLineEnd c = false := by
  by_contra ends
  rw [Bool.not_eq_false] at ends
  have own : c.toNat ∈ [10, 11, 12, 13, 28, 29, 30, 0x85, 0x2028, 0x2029] := by
    simp only [isLineEnd, Bool.or_eq_true, Bool.and_eq_true, decide_eq_true_eq, beq_iff_eq] at ends
    simp only [List.mem_cons, List.not_mem_nil, or_false]
    omega
  have none : ∀ n ∈ [10, 11, 12, 13, 28, 29, 30, 0x85, 0x2028, 0x2029], isDigit (Char.ofNat n) = false := by
    decide
  rw [← Char.ofNat_toNat c, none c.toNat own] at h
  cases h

theorem linesFrom_append {current : List Char} (plain : ∀ c ∈ line, isLineEnd c = false) (rest : List Char) :
    linesFrom current (line ++ rest) = linesFrom (line.reverse ++ current) rest := by
  induction line generalizing current with
  | nil => rfl
  | cons c line ih =>
    have own : isLineEnd c = false := plain c List.mem_cons_self
    have notReturn : c ≠ '\r' := by
      rintro rfl
      cases own
    rw [List.cons_append, linesFrom, own]
    · simp [ih fun d hd => plain d (List.mem_cons_of_mem c hd)]
    · intro _ same
      exact fun _ => notReturn same

theorem linesFrom_newline (current rest : List Char) :
    linesFrom current ('\n' :: rest) = current.reverse :: linesFrom [] rest := by
  rw [linesFrom]
  · rfl
  · exact nofun

/-- lines without line ends, joined by line feeds, are cut into the same lines, an empty last one apart -/
theorem lines_intercalate (plain : ∀ line ∈ ls, ∀ c ∈ line, isLineEnd c = false) :
    lines (List.intercalate ['\n'] ls) = ls ∨ ls = lines (List.intercalate ['\n'] ls) ++ [[]] := by
  induction ls with
  | nil => exact .inl rfl
  | cons line ls ih =>
    have own : ∀ c ∈ line, isLineEnd c = false := plain line List.mem_cons_self
    have later := ih fun l hl => plain l (List.mem_cons_of_mem line hl)
    cases ls with
    | nil =>
      have read : lines line = if line.isEmpty then [] else [line] := by
        have all : linesFrom [] (line ++ []) = linesFrom (line.reverse ++ []) [] := linesFrom_append own []
        rw [List.append_nil] at all
        unfold lines
        rw [all, List.append_nil, linesFrom, List.isEmpty_reverse, List.reverse_reverse]
      rw [List.intercalate_singleton, read]
      cases line with
      | nil => exact .inr rfl
      | cons c line => exact .inl rfl
    | cons next ls =>
      have read : lines (List.intercalate ['\n'] (line :: next :: ls)) =
          line :: lines (List.intercalate ['\n'] (next :: ls)) := by
        unfold lines
        rw [List.intercalate_cons_cons, List.append_assoc, linesFrom_append own, List.singleton_append,
          linesFrom_newline, List.append_nil, List.reverse_reverse]
      rw [read]
      rcases later with same | same
      · exact .inl (by rw [same])
      · exact .inr (by rw [List.cons_append, ← same])

end LintLedger.Text
