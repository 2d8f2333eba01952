import LintLedger.Proofs.Json.Run
import Mathlib

/-!
# JSON with blanks behind it

No number, no word and no mark goes on with a blank.  So in front of blanks a reader reads what it reads without
them, and leaves them (`reads_blanks`): a list that is read with blanks behind it is read without them
(`readChars_trimmed`).
-/

namespace LintLedger.Json

open Outcome

variable {n : ℕ} {cs rest rest' blanks : List Char} {v : Value} {xs : List Value}

theorem skip_eq_nil_iff : skip cs = [] ↔ ∀ c ∈ cs, isSpace c = true := List.dropWhile_eq_nil_iff

theorem isSpace_apart {c : Char} (h : isSpace c = true) :
    isPlainDigit c = false ∧ c ≠ '.' ∧ c ≠ 'e' ∧ c ≠ 'E' ∧ c ≠ '0' ∧ c ≠ '-' ∧ c ≠ '+' := by
  unfold isSpace at h
  simp only [Bool.or_eq_true, decide_eq_true_eq] at h
  rcases h with ((rfl | rfl) | rfl) | rfl <;> decide

/-! ### Rows of characters -/

theorem takeWhile_append_of_neg {p : Char → Bool} (none : ∀ c ∈ blanks, p c = false) :
    (cs ++ blanks).takeWhile p = cs.takeWhile p := by
  induction cs with
  | nil =>
    cases blanks with
    | nil => rfl
    | cons b bs => simp [none b List.mem_cons_self]
  | cons c cs ih => by_cases take : p c = true <;> simp [take, ih]

theorem dropWhile_append_of_neg {p : Char → Bool} (none : ∀ c ∈ blanks, p c = false) :
    (cs ++ blanks).dropWhile p = cs.dropWhile p ++ blanks := by
  have whole := (List.takeWhile_append_dropWhile (p := p) (l := cs ++ blanks)).trans
    (congrArg (· ++ blanks) (List.takeWhile_append_dropWhile (p := p) (l := cs)).symm)
  rw [takeWhile_append_of_neg none, List.append_assoc] at whole
  exact List.append_cancel_left whole

/-- what stands in front of a character that is no blank stands in front of the blanks -/
theorem exists_of_append_eq_cons {c : Char} {tail : List Char} (blank : skip blanks = []) (filled : isSpace c = false)
    (h : cs ++ blanks = c :: tail) : ∃ own, tail = own ++ blanks ∧ cs = c :: own := by
  cases cs with
  | nil =>
    subst h
    rw [skip_eq_nil_iff.mp blank c List.mem_cons_self] at filled
    cases filled
  | cons d cs =>
    cases h
    exact ⟨cs, rfl, rfl⟩

theorem exists_of_skip_append {c : Char} {tail : List Char} (blank : skip blanks = [])
    (h : skip (cs ++ blanks) = c :: tail) : ∃ own, tail = own ++ blanks ∧ skip cs = c :: own := by
  by_cases some : skip cs = []
  · rw [skip_append_of_eq_nil some, blank] at h
    cases h
  · rw [skip_append some] at h
    obtain ⟨d, own, begins⟩ := List.exists_cons_of_ne_nil some
    rw [begins, List.cons_append] at h
    cases h
    exact ⟨own, rfl, begins⟩

theorem skip_ne_nil_of_append (blank : skip blanks = []) (some : skip (cs ++ blanks) ≠ []) : skip cs ≠ [] := by
  intro none
  rw [skip_append_of_eq_nil none] at some
  exact some blank

/-! ### Numbers and words -/

theorem wholePart_blanks (blank : skip blanks = []) :
    wholePart (cs ++ blanks) = ((wholePart cs).1, (wholePart cs).2 ++ blanks) := by
  have apart : ∀ c ∈ blanks, isPlainDigit c = false := fun c hc => (isSpace_apart (skip_eq_nil_iff.mp blank c hc)).1
  have row : ∀ cs : List Char, (∀ tail, cs ≠ '0' :: tail) →
      wholePart cs = (cs.takeWhile isPlainDigit, cs.dropWhile isPlainDigit) := by
    intro cs other
    unfold wholePart
    split
    · exact absurd rfl (other _)
    · rfl
  by_cases zero : ∃ tail, cs = '0' :: tail
  · obtain ⟨tail, rfl⟩ := zero
    rfl
  · have other : ∀ tail, cs ++ blanks ≠ '0' :: tail := by
      intro tail same
      obtain ⟨own, -, rfl⟩ := exists_of_append_eq_cons blank rfl same
      exact zero ⟨own, rfl⟩
    rw [row _ other, row cs fun tail same => zero ⟨tail, same⟩, takeWhile_append_of_neg apart,
      dropWhile_append_of_neg apart]

theorem fractionPart_blanks (blank : skip blanks = []) :
    fractionPart (cs ++ blanks) = ((fractionPart cs).1, (fractionPart cs).2 ++ blanks) := by
  have apart : ∀ c ∈ blanks, isPlainDigit c = false := fun c hc => (isSpace_apart (skip_eq_nil_iff.mp blank c hc)).1
  have nothing : ∀ cs : List Char, (∀ tail, cs ≠ '.' :: tail) → fractionPart cs = ([], cs) := by
    intro cs other
    unfold fractionPart
    split
    · exact absurd rfl (other _)
    · rfl
  by_cases point : ∃ tail, cs = '.' :: tail
  · obtain ⟨tail, rfl⟩ := point
    simp only [List.cons_append, fractionPart, takeWhile_append_of_neg apart, dropWhile_append_of_neg apart]
    split <;> rfl
  · have other : ∀ tail, cs ++ blanks ≠ '.' :: tail := by
      intro tail same
      obtain ⟨own, -, rfl⟩ := exists_of_append_eq_cons blank rfl same
      exact point ⟨own, rfl⟩
    rw [nothing _ other, nothing cs fun tail same => point ⟨tail, same⟩]

theorem splitSign_blanks (blank : skip blanks = []) :
    Decimal.splitSign (cs ++ blanks) = ((Decimal.splitSign cs).1, (Decimal.splitSign cs).2 ++ blanks) := by
  cases cs with
  | cons c cs => exact splitSign_append (List.cons_ne_nil c cs)
  | nil =>
    cases blanks with
    | nil => rfl
    | cons b bs =>
      obtain ⟨-, -, -, -, -, minus, plus⟩ := isSpace_apart (skip_eq_nil_iff.mp blank b List.mem_cons_self)
      simp [Decimal.splitSign, minus, plus]

theorem exponentPart_blanks (blank : skip blanks = []) :
    exponentPart (cs ++ blanks) = ((exponentPart cs).1, (exponentPart cs).2 ++ blanks) := by
  have apart : ∀ c ∈ blanks, isPlainDigit c = false := fun c hc => (isSpace_apart (skip_eq_nil_iff.mp blank c hc)).1
  cases cs with
  | nil =>
    cases blanks with
    | nil => rfl
    | cons b bs =>
      obtain ⟨-, -, small, large, -⟩ := isSpace_apart (skip_eq_nil_iff.mp blank b List.mem_cons_self)
      simp [exponentPart, small, large]
  | cons c cs =>
    simp only [List.cons_append, exponentPart, splitSign_blanks blank, takeWhile_append_of_neg apart,
      dropWhile_append_of_neg apart]
    split
    · split <;> rfl
    · rfl

theorem number_blanks (blank : skip blanks = []) (negative : Bool) (cs : List Char) :
    number negative (cs ++ blanks) = (number negative cs).map fun p => (p.1, p.2 ++ blanks) := by
  rw [number_eq, number_eq, wholePart_blanks blank]
  dsimp only
  rw [fractionPart_blanks blank]
  dsimp only
  rw [exponentPart_blanks blank]
  dsimp only
  cases numberOf negative (wholePart cs).1 (fractionPart (wholePart cs).2).1
    (exponentPart (fractionPart (wholePart cs).2).2).1 <;> rfl

theorem signedNumber_blanks (blank : skip blanks = []) (cs : List Char) :
    signedNumber (cs ++ blanks) = (signedNumber cs).map fun p => (p.1, p.2 ++ blanks) := by
  have plain : ∀ cs : List Char, (∀ tail, cs ≠ '-' :: tail) → signedNumber cs = number false cs := by
    intro cs other
    unfold signedNumber
    split
    · exact absurd rfl (other _)
    · rfl
  by_cases minus : ∃ tail, cs = '-' :: tail
  · obtain ⟨tail, rfl⟩ := minus
    exact number_blanks blank true tail
  · have other : ∀ tail, cs ++ blanks ≠ '-' :: tail := by
      intro tail same
      obtain ⟨own, -, rfl⟩ := exists_of_append_eq_cons blank rfl same
      exact minus ⟨own, rfl⟩
    rw [plain _ other, plain cs fun tail same => minus ⟨tail, same⟩, number_blanks blank]

/-- there is no blank in a word -/
theorem words_filled : ∀ w ∈ words.map Prod.fst, ∀ c ∈ w, isSpace c = false := by
  rw [words_fst]
  simp [isSpace]

theorem word?_blanks (blank : skip blanks = []) : word? (cs ++ blanks) = word? cs := by
  refine List.find?_congr fun w hw => Bool.eq_iff_iff.mpr ?_
  rw [List.isPrefixOf_iff_prefix, List.isPrefixOf_iff_prefix]
  refine ⟨fun begins => ?_, fun begins => begins.trans (List.prefix_append cs blanks)⟩
  rcases List.prefix_or_prefix_of_prefix begins (List.prefix_append cs blanks) with own | ⟨more, longer⟩
  · exact own
  -- a word that went on behind these characters would go on with a blank
  · rw [← longer, List.prefix_append_right_inj] at begins
    have none : more = [] := by
      refine List.eq_nil_iff_forall_not_mem.mpr fun c hc => ?_
      have filled := words_filled w.1 (List.mem_map_of_mem hw) c (longer ▸ List.mem_append_right cs hc)
      rw [skip_eq_nil_iff.mp blank c (begins.subset hc)] at filled
      cases filled
    rw [← longer, none, List.append_nil]

theorem scalar_blanks (blank : skip blanks = []) (cs : List Char) :
    scalar (cs ++ blanks) = (scalar cs).map fun p => (p.1, p.2 ++ blanks) := by
  rw [scalar_eq, scalar_eq, word?_blanks blank]
  cases begins : word? cs with
  | none => exact signedNumber_blanks blank cs
  | some w =>
    have own : w.1.isPrefixOf cs = true := List.find?_some (p := fun w : List Char × Value => w.1.isPrefixOf cs) begins
    dsimp only
    rw [List.drop_append_of_le_length (List.isPrefixOf_iff_prefix.mp own).length_le]
    rfl

/-! ### Texts -/

theorem exists_of_isSuffix {c : Char} (blank : skip blanks = []) (filled : isSpace c = false)
    (within : c :: rest' <:+ cs ++ blanks) : ∃ rest, rest' = rest ++ blanks := by
  obtain ⟨gone, whole⟩ := within
  rcases List.append_eq_append_iff.mp whole with ⟨left, -, same⟩ | ⟨gone', -, behind⟩
  · obtain ⟨rest, rfl, -⟩ := exists_of_append_eq_cons blank filled same.symm
    exact ⟨rest, rfl⟩
  · have mem : c ∈ blanks := behind ▸ List.mem_append_right gone' List.mem_cons_self
    rw [skip_eq_nil_iff.mp blank c mem] at filled
    cases filled

theorem unitsTail?_front {units : List ℕ} (h : unitsTail? (cs ++ blanks) = some (units, rest ++ blanks)) :
    unitsTail? cs = some (units, rest) := by
  -- what is left of a text ends with the blanks, so they stand behind all that is read
  have left : ∀ {tail : List Char} {units : List ℕ}, unitsTail? tail = some (units, rest ++ blanks) →
      ∃ own, tail = own ++ blanks := by
    intro tail units read
    obtain ⟨gone, rfl⟩ := (List.suffix_cons ..).trans (unitsTail?_isSuffix read)
    exact ⟨gone ++ rest, (List.append_assoc ..).symm⟩
  generalize whole : cs ++ blanks = all at h
  fun_induction unitsTail? all generalizing units cs with
  | case1 => cases h
  | case2 tail =>
    cases h
    obtain rfl : cs = '"' :: rest := List.append_cancel_right whole
    rfl
  | case3 p q r s tail n units' rest' read hex ih =>
    cases h
    obtain ⟨own, rfl⟩ := left read
    obtain rfl : cs = '\\' :: 'u' :: p :: q :: r :: s :: own := List.append_cancel_right whole
    simp [unitsTail?, hex, ih rfl read]
  | case4 => cases h
  | case5 e tail short c units' rest' read escape ih =>
    cases h
    obtain ⟨own, rfl⟩ := left read
    obtain rfl : cs = '\\' :: e :: own := List.append_cancel_right whole
    have other : e ≠ 'u' := by
      rintro rfl
      cases escape
    simp [unitsTail?, other, escape, ih rfl read]
  | case6 => cases h
  | case7 => cases h
  | case8 c tail quote short escape plain ih =>
    obtain ⟨⟨units', rest'⟩, read, same⟩ := Option.map_eq_some_iff.mp h
    cases same
    obtain ⟨own, rfl⟩ := left read
    obtain rfl : cs = c :: own := List.append_cancel_right whole
    have slash : c ≠ '\\' := by
      rintro rfl
      simp at plain
    rw [unitsTail?, if_neg plain, ih rfl read]
    · rfl
    · exact quote
    · exact fun _ _ _ _ _ h => absurd h slash
    · exact fun _ _ h => absurd h slash

theorem exists_of_textTail? {s : String} (blank : skip blanks = []) (h : textTail? (cs ++ blanks) = some (s, rest')) :
    ∃ rest, rest' = rest ++ blanks ∧ textTail? cs = some (s, rest) := by
  obtain ⟨⟨units, _⟩, read, same⟩ := Option.map_eq_some_iff.mp h
  cases same
  obtain ⟨rest, rfl⟩ := exists_of_isSuffix blank rfl (unitsTail?_isSuffix read)
  refine ⟨rest, rfl, ?_⟩
  unfold textTail?
  rw [unitsTail?_front read]
  rfl

/-! ### Values -/

/-- what is read in front of blanks is read without them, and they are left -/
theorem reads_blanks (blank : skip blanks = []) (n : ℕ) :
    (∀ cs v rest', value n (cs ++ blanks) = .ok (v, rest') →
      ∃ rest, rest' = rest ++ blanks ∧ value n cs = .ok (v, rest)) ∧
    (∀ cs xs rest', elements n (cs ++ blanks) = .ok (xs, rest') →
      ∃ rest, rest' = rest ++ blanks ∧ elements n cs = .ok (xs, rest)) ∧
    ∀ done cs es rest', members n done (cs ++ blanks) = .ok (es, rest') →
      ∃ rest, rest' = rest ++ blanks ∧ members n done cs = .ok (es, rest) := by
  induction n with
  | zero => exact ⟨nofun, nofun, nofun⟩
  | succ n ih =>
    obtain ⟨values, lists, maps⟩ := ih
    refine ⟨fun cs v rest' h => ?_, fun cs xs rest' h => ?_, fun done cs es rest' h => ?_⟩
    · simp only [value_eq_ok_iff] at h ⊢
      generalize whole : cs ++ blanks = all at h
      cases h with
      | text read =>
        obtain ⟨own, rfl, rfl⟩ := exists_of_append_eq_cons blank rfl whole
        obtain ⟨rest, rfl, read'⟩ := exists_of_textTail? blank read
        exact ⟨rest, rfl, .text read'⟩
      | emptyList close =>
        obtain ⟨own, rfl, rfl⟩ := exists_of_append_eq_cons blank rfl whole
        obtain ⟨rest, rfl, close'⟩ := exists_of_skip_append blank close
        exact ⟨rest, rfl, .emptyList close'⟩
      | list some read =>
        obtain ⟨own, rfl, rfl⟩ := exists_of_append_eq_cons blank rfl whole
        have filled := skip_ne_nil_of_append blank (ne_nil_of_elements read)
        rw [skip_append filled] at read
        obtain ⟨rest, rfl, read'⟩ := lists _ _ _ read
        exact ⟨rest, rfl, .list (fun r close => some _ (skip_append_cons close)) read'⟩
      | emptyMap close =>
        obtain ⟨own, rfl, rfl⟩ := exists_of_append_eq_cons blank rfl whole
        obtain ⟨rest, rfl, close'⟩ := exists_of_skip_append blank close
        exact ⟨rest, rfl, .emptyMap close'⟩
      | map some read =>
        obtain ⟨own, rfl, rfl⟩ := exists_of_append_eq_cons blank rfl whole
        have filled := skip_ne_nil_of_append blank (ne_nil_of_members read)
        rw [skip_append filled] at read
        obtain ⟨rest, rfl, read'⟩ := maps _ _ _ _ read
        exact ⟨rest, rfl, .map (fun r close => some _ (skip_append_cons close)) read'⟩
      | scalar plain read =>
        subst whole
        rw [scalar_blanks blank] at read
        obtain ⟨⟨w, rest⟩, own, same⟩ := map_eq_ok.mp read
        cases same
        refine ⟨rest, rfl, .scalar ?_ own⟩
        cases cs with
        | nil => rfl
        | cons c cs => exact plain
    · obtain ⟨x, after', first, ends⟩ := elements_eq_ok_iff.mp h
      obtain ⟨after, rfl, first'⟩ := values _ _ _ first
      rcases ends with ⟨close, rfl⟩ | ⟨next, ys, comma, others, rfl⟩
      · obtain ⟨rest, rfl, close'⟩ := exists_of_skip_append blank close
        exact ⟨rest, rfl, elements_eq_ok_iff.mpr ⟨x, after, first', .inl ⟨close', rfl⟩⟩⟩
      · obtain ⟨next, rfl, comma'⟩ := exists_of_skip_append blank comma
        rw [skip_append (skip_ne_nil_of_append blank (ne_nil_of_elements others))] at others
        obtain ⟨rest, rfl, others'⟩ := lists _ _ _ others
        exact ⟨rest, rfl, elements_eq_ok_iff.mpr ⟨x, after, first', .inr ⟨next, ys, comma', others', rfl⟩⟩⟩
    · obtain ⟨begin, name, colon, after, v, last, begins, named, separates, read, ends⟩ := members_eq_ok_iff.mp h
      obtain ⟨begin, rfl, rfl⟩ := exists_of_append_eq_cons blank rfl begins
      obtain ⟨colon, rfl, named'⟩ := exists_of_textTail? blank named
      obtain ⟨after, rfl, separates'⟩ := exists_of_skip_append blank separates
      rw [skip_append (skip_ne_nil_of_append blank (ne_nil_of_value read))] at read
      obtain ⟨last, rfl, read'⟩ := values _ _ _ read
      rcases ends with ⟨close, rfl⟩ | ⟨next, comma, others⟩
      · obtain ⟨rest, rfl, close'⟩ := exists_of_skip_append blank close
        exact ⟨rest, rfl, members_eq_ok_iff.mpr
          ⟨begin, name, colon, after, v, last, rfl, named', separates', read', .inl ⟨close', rfl⟩⟩⟩
      · obtain ⟨next, rfl, comma'⟩ := exists_of_skip_append blank comma
        rw [skip_append (skip_ne_nil_of_append blank (ne_nil_of_members others))] at others
        obtain ⟨rest, rfl, others'⟩ := maps _ _ _ _ others
        exact ⟨rest, rfl, members_eq_ok_iff.mpr
          ⟨begin, name, colon, after, v, last, rfl, named', separates', read', .inr ⟨next, comma', others'⟩⟩⟩

/-! ### Enough steps -/

theorem length_lt_of_skip {c : Char} (h : skip cs = c :: rest) : rest.length < cs.length := by
  have within := (skip_isSuffix cs).length_le
  rw [h, List.length_cons] at within
  exact within

/-- whatever is read in any number of steps is read in as many as there are characters, twice over -/
theorem reads_within (n : ℕ) :
    (∀ cs v rest, value n cs = .ok (v, rest) → value (2 * cs.length) cs = .ok (v, rest)) ∧
    (∀ cs xs rest, elements n cs = .ok (xs, rest) → elements (2 * cs.length + 1) cs = .ok (xs, rest)) ∧
    ∀ done cs es rest, members n done cs = .ok (es, rest) → members (2 * cs.length + 1) done cs = .ok (es, rest) := by
  induction n with
  | zero => exact ⟨nofun, nofun, nofun⟩
  | succ n ih =>
    obtain ⟨values, lists, maps⟩ := ih
    refine ⟨fun cs v rest h => ?_, fun cs xs rest h => ?_, fun done cs es rest h => ?_⟩
    · obtain ⟨c, tail, rfl⟩ := List.exists_cons_of_ne_nil (ne_nil_of_value h)
      have shorter := (skip_isSuffix tail).length_le
      rw [List.length_cons, show 2 * (tail.length + 1) = 2 * tail.length + 1 + 1 by omega, value_eq_ok_iff]
      cases value_eq_ok_iff.mp h with
      | text read => exact .text read
      | emptyList close => exact .emptyList close
      | list some read => exact .list some (elements_mono (by omega) (lists _ _ _ read))
      | emptyMap close => exact .emptyMap close
      | map some read => exact .map some (members_mono (by omega) (maps _ _ _ _ read))
      | scalar plain read => exact .scalar plain read
    · obtain ⟨x, after, first, ends⟩ := elements_eq_ok_iff.mp h
      refine elements_eq_ok_iff.mpr ⟨x, after, values _ _ _ first, ends.imp id ?_⟩
      rintro ⟨next, ys, comma, others, rfl⟩
      have behind := (value_isSuffix first).length_le
      have shorter := (skip_isSuffix next).length_le
      have := length_lt_of_skip comma
      exact ⟨next, ys, comma, elements_mono (by omega) (lists _ _ _ others), rfl⟩
    · obtain ⟨begin, name, colon, after, v, last, rfl, named, separates, read, ends⟩ := members_eq_ok_iff.mp h
      have called := (textTail?_isSuffix named).length_le
      have separated := length_lt_of_skip separates
      have shorter := (skip_isSuffix after).length_le
      refine members_eq_ok_iff.mpr ⟨begin, name, colon, after, v, last, rfl, named, separates,
        value_mono ?_ (values _ _ _ read), ends.imp id ?_⟩
      · rw [List.length_cons]
        omega
      · rintro ⟨next, comma, others⟩
        have behind := (value_isSuffix read).length_le
        have := (skip_isSuffix next).length_le
        have := length_lt_of_skip comma
        exact ⟨next, comma, members_mono (by rw [List.length_cons]; omega) (maps _ _ _ _ others)⟩

/-- a list that is read with blanks behind it is read without them -/
theorem readChars_trimmed (blank : skip blanks = []) (h : readChars (cs ++ blanks) = .ok (.list xs)) :
    readChars cs = .ok (.list xs) := by
  obtain ⟨rest', read, ends⟩ := readChars_eq_ok_iff.mp h
  rw [skip_append (skip_ne_nil_of_append blank (ne_nil_of_value read))] at read
  obtain ⟨rest, rfl, read'⟩ := (reads_blanks blank _).1 _ _ _ read
  have short := (skip_isSuffix cs).length_le
  refine readChars_eq_ok_iff.mpr ⟨rest, value_mono (by omega) ((reads_within _).1 _ _ _ read'), ?_⟩
  by_contra some
  rw [skip_append some] at ends
  exact some (List.append_eq_nil_iff.mp ends).1

end LintLedger.Json
