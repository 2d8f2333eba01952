import LintLedger.Json.Reader
import LintLedger.Proofs.Outcome
import Mathlib

/-!
# Tokens of JSON in front of more characters

Blanks, texts, numbers and words are what a JSON text is made of.  A text ends at its closing mark, so it is
read the same whatever stands behind it (`textTail?_append`); a number or a word is read the same in front of
anything, if a character follows that cannot go on with it (`scalar_append`).
-/

namespace LintLedger.Json

open Outcome

variable {cs rest more : List Char} {v : Value}

/-! ### Blanks between the parts -/

theorem skip_append (some : skip cs ≠ []) : skip (cs ++ more) = skip cs ++ more := by
  unfold skip at some ⊢
  rw [List.dropWhile_append, if_neg (by simpa using some)]

theorem skip_append_of_eq_nil (none : skip cs = []) : skip (cs ++ more) = skip more := by
  unfold skip at none ⊢
  rw [List.dropWhile_append, if_pos (by simpa using none)]

theorem skip_append_cons {c : Char} (h : skip cs = c :: rest) : skip (cs ++ more) = c :: (rest ++ more) := by
  rw [skip_append (by simp [h]), h, List.cons_append]

theorem skip_append_ne {c : Char} (other : ∀ r, skip cs ≠ c :: r) (some : skip cs ≠ []) :
    ∀ r, skip (cs ++ more) ≠ c :: r := by
  intro r same
  obtain ⟨d, tail, own⟩ := List.exists_cons_of_ne_nil some
  rw [skip_append some, own, List.cons_append] at same
  cases same
  exact other tail own

/-! ### Texts -/

theorem unitsTail?_append {units : List ℕ} (h : unitsTail? cs = some (units, rest)) :
    unitsTail? (cs ++ more) = some (units, rest ++ more) := by
  fun_induction unitsTail? cs generalizing units rest with
  | case1 => cases h
  | case2 tail =>
    cases h
    rfl
  | case3 p q r s tail n units' rest' read hex ih =>
    cases h
    simp [unitsTail?, hex, ih read]
  | case4 => cases h
  | case5 e tail short c units' rest' read escape ih =>
    cases h
    have other : e ≠ 'u' := by
      rintro rfl
      cases escape
    simp [unitsTail?, other, escape, ih read]
  | case6 => cases h
  | case7 => cases h
  | case8 c tail quote short escape plain ih =>
    obtain ⟨⟨units', rest'⟩, read, same⟩ := Option.map_eq_some_iff.mp h
    cases same
    have slash : c ≠ '\\' := by
      rintro rfl
      simp at plain
    simp only [List.cons_append]
    rw [unitsTail?, if_neg plain, ih read]
    · rfl
    · exact quote
    · exact fun _ _ _ _ _ h => absurd h slash
    · exact fun _ _ h => absurd h slash

theorem textTail?_append {s : String} (h : textTail? cs = some (s, rest)) :
    textTail? (cs ++ more) = some (s, rest ++ more) := by
  obtain ⟨⟨units, rest'⟩, read, same⟩ := Option.map_eq_some_iff.mp h
  cases same
  unfold textTail?
  rw [unitsTail?_append read]
  rfl

/-! ### Numbers and words -/

/-- a character that no number and no word goes on with, and behind which a list or a map goes on or ends -/
def endsScalar (c : Char) : Bool := isSpace c || c = ',' || c = ']' || c = '\x7d'

theorem endsScalar_apart {c : Char} (h : endsScalar c = true) :
    isPlainDigit c = false ∧ c ≠ '.' ∧ c ≠ 'e' ∧ c ≠ 'E' := by
  unfold endsScalar isSpace at h
  simp only [Bool.or_eq_true, decide_eq_true_eq] at h
  rcases h with (((((rfl | rfl) | rfl) | rfl) | rfl) | rfl) | rfl <;> decide

/-- a row of characters that ends in front of another one is the same in front of anything -/
theorem takeWhile_append_of_dropWhile {p : Char → Bool} (ends : cs.dropWhile p ≠ []) :
    (cs ++ more).takeWhile p = cs.takeWhile p := by
  have whole := congrArg List.length (List.takeWhile_append_dropWhile (p := p) (l := cs))
  have some := List.length_pos_iff.mpr ends
  rw [List.length_append] at whole
  rw [List.takeWhile_append, if_neg (by omega)]

theorem dropWhile_append_of_ne_nil {p : Char → Bool} (ends : cs.dropWhile p ≠ []) :
    (cs ++ more).dropWhile p = cs.dropWhile p ++ more := by
  rw [List.dropWhile_append, if_neg (by simpa using ends)]

theorem splitSign_append (some : cs ≠ []) :
    Decimal.splitSign (cs ++ more) = ((Decimal.splitSign cs).1, (Decimal.splitSign cs).2 ++ more) := by
  obtain ⟨c, rest, rfl⟩ := List.exists_cons_of_ne_nil some
  rw [List.cons_append]
  by_cases minus : c = '-'
  · subst minus
    rfl
  · by_cases plus : c = '+'
    · subst plus
      rfl
    · simp [Decimal.splitSign, minus, plus]

theorem wholePart_append (ends : (wholePart cs).2 ≠ []) :
    wholePart (cs ++ more) = ((wholePart cs).1, (wholePart cs).2 ++ more) := by
  unfold wholePart at ends ⊢
  split at ends
  · rfl
  · rename_i other
    have run : (cs ++ more).takeWhile isPlainDigit = cs.takeWhile isPlainDigit := takeWhile_append_of_dropWhile ends
    split
    · rename_i zero
      cases cs with
      | nil => exact absurd rfl ends
      | cons c rest =>
        cases zero
        exact absurd rfl (other rest)
    · rw [run, dropWhile_append_of_ne_nil ends]

/-- a fraction is the same in front of anything if what stands behind it is neither nothing nor a point -/
theorem fractionPart_append {c : Char} (ends : (fractionPart cs).2 = c :: rest) (point : c ≠ '.') :
    fractionPart (cs ++ more) = ((fractionPart cs).1, (fractionPart cs).2 ++ more) := by
  cases cs with
  | nil => cases ends
  | cons d tail =>
    by_cases dot : d = '.'
    · subst dot
      by_cases none : (tail.takeWhile isPlainDigit).isEmpty = true
      · have all : fractionPart ('.' :: tail) = ([], '.' :: tail) := if_pos none
        rw [all] at ends
        cases ends
        exact absurd rfl point
      · have all : fractionPart ('.' :: tail) = (tail.takeWhile isPlainDigit, tail.dropWhile isPlainDigit) :=
          if_neg none
        rw [all] at ends ⊢
        have some : tail.dropWhile isPlainDigit ≠ [] := by
          rw [show tail.dropWhile isPlainDigit = c :: rest from ends]
          exact List.cons_ne_nil _ _
        simp only [List.cons_append, fractionPart]
        rw [takeWhile_append_of_dropWhile some, dropWhile_append_of_ne_nil some, if_neg none]
    · simp [fractionPart, dot]

/-- so is an exponent, if what stands behind it is neither nothing nor the letter of an exponent -/
theorem exponentPart_append {c : Char} (ends : (exponentPart cs).2 = c :: rest) (small : c ≠ 'e') (large : c ≠ 'E') :
    exponentPart (cs ++ more) = ((exponentPart cs).1, (exponentPart cs).2 ++ more) := by
  cases cs with
  | nil => cases ends
  | cons d tail =>
    by_cases letter : (d = 'e' || d = 'E') = true
    · by_cases none : ((Decimal.splitSign tail).2.takeWhile isPlainDigit).isEmpty = true
      · have all : exponentPart (d :: tail) = (.none, d :: tail) := by
          simp only [exponentPart]
          rw [if_pos letter, if_pos none]
        rw [all] at ends
        cases ends
        simp [small, large] at letter
      · have all : exponentPart (d :: tail) =
            (some (Decimal.signed (Decimal.splitSign tail).1
              (Text.digitsValue ((Decimal.splitSign tail).2.takeWhile isPlainDigit))),
              (Decimal.splitSign tail).2.dropWhile isPlainDigit) := by
          simp only [exponentPart]
          rw [if_pos letter, if_neg none]
        rw [all] at ends ⊢
        have some : (Decimal.splitSign tail).2.dropWhile isPlainDigit ≠ [] := by
          rw [show (Decimal.splitSign tail).2.dropWhile isPlainDigit = c :: rest from ends]
          exact List.cons_ne_nil _ _
        have tail' : tail ≠ [] := by
          rintro rfl
          exact none rfl
        simp only [List.cons_append, exponentPart]
        rw [if_pos letter, splitSign_append tail']
        dsimp only
        rw [takeWhile_append_of_dropWhile some, dropWhile_append_of_ne_nil some, if_neg none]
    · have all : ∀ tail, exponentPart (d :: tail) = (none, d :: tail) := by
        intro tail
        simp only [exponentPart]
        rw [if_neg letter]
      rw [List.cons_append, all, all, List.cons_append]

/-- the value that the parts of a number stand for -/
def numberOf (negative : Bool) (whole fraction : List Char) (exponent : Option ℤ) : Except Error Value :=
  if whole.isEmpty then .error .malformed
  else if fraction.isEmpty && exponent.isNone then
    if digitLimit < whole.length then .error (.hugeInteger whole.length)
    else .ok (.int (Decimal.signed negative (Text.digitsValue whole)))
  else .ok (.float (Decimal.nearestDecimal negative (Text.digitsValue (whole ++ fraction))
    (exponent.getD 0 - fraction.length)))

/-- a number is read part by part, and what is left is left behind its exponent -/
theorem number_eq (negative : Bool) (cs : List Char) : number negative cs =
    (numberOf negative (wholePart cs).1 (fractionPart (wholePart cs).2).1
      (exponentPart (fractionPart (wholePart cs).2).2).1).map
        (·, (exponentPart (fractionPart (wholePart cs).2).2).2) := by
  unfold number numberOf
  dsimp only
  split
  · rfl
  · split
    · split <;> rfl
    · rfl

theorem whole_ne_nil_of_numberOf {negative : Bool} {whole fraction : List Char} {exponent : Option ℤ}
    (h : numberOf negative whole fraction exponent ≠ .error .malformed) : whole ≠ [] := by
  rintro rfl
  exact h rfl

theorem numberOf_ne_list {negative : Bool} {whole fraction : List Char} {exponent : Option ℤ}
    (h : numberOf negative whole fraction exponent = .ok v) (xs : List Value) : v ≠ .list xs := by
  rintro rfl
  unfold numberOf at h
  split at h
  · cases h
  · split at h
    · split at h <;> cases h
    · cases h

/-- a number is the same in front of anything behind a character that ends it -/
theorem number_append {negative : Bool} {c : Char} (h : number negative cs = .ok (v, c :: rest))
    (ends : endsScalar c = true) : number negative (cs ++ more) = .ok (v, c :: (rest ++ more)) := by
  obtain ⟨-, point, small, large⟩ := endsScalar_apart ends
  rw [number_eq] at h
  obtain ⟨w, read, same⟩ := map_eq_ok.mp h
  obtain ⟨rfl, last⟩ := Prod.mk.inj same
  -- each part ends in front of the next one
  obtain ⟨d, tail, middle, other⟩ : ∃ d tail, (fractionPart (wholePart cs).2).2 = d :: tail ∧ d ≠ '.' := by
    cases middle : (fractionPart (wholePart cs).2).2 with
    | nil =>
      rw [middle] at last
      cases last
    | cons d tail =>
      refine ⟨d, tail, rfl, ?_⟩
      rintro rfl
      rw [middle] at last
      cases last
      exact point rfl
  have first : (wholePart cs).2 ≠ [] := by
    intro none
    rw [none] at middle
    cases middle
  rw [number_eq, wholePart_append first, fractionPart_append middle other, exponentPart_append last small large, read,
    last]
  rfl

/-- a number begins with a digit, even if it has too many -/
theorem exists_digit_of_number {negative : Bool} (h : number negative cs ≠ .error .malformed) :
    ∃ c tail, cs = c :: tail ∧ isPlainDigit c = true := by
  rw [number_eq, Ne, map_eq_error] at h
  have some := whole_ne_nil_of_numberOf h
  cases cs with
  | nil => exact absurd rfl some
  | cons c tail =>
    refine ⟨c, tail, rfl, ?_⟩
    by_contra other
    by_cases zero : c = '0'
    · subst zero
      exact other rfl
    · simp [wholePart, zero, other] at some

theorem words_fst : words.map Prod.fst =
    ["null".toList, "true".toList, "false".toList, "NaN".toList, "Infinity".toList, "-Infinity".toList] := rfl

/-- no word begins another -/
theorem words_apart : ∀ w ∈ words.map Prod.fst, ∀ u ∈ words.map Prod.fst, u.isPrefixOf w = true → u = w := by
  rw [words_fst]
  decide

/-- no word begins as a number does, with its sign or behind it -/
theorem exists_of_mem_words : ∀ w ∈ words.map Prod.fst,
    ∃ a b tail, w = a :: b :: tail ∧ isPlainDigit a = false ∧ isPlainDigit b = false := by
  rw [words_fst]
  simp only [List.forall_mem_cons]
  exact ⟨⟨_, _, _, rfl, rfl, rfl⟩, ⟨_, _, _, rfl, rfl, rfl⟩, ⟨_, _, _, rfl, rfl, rfl⟩, ⟨_, _, _, rfl, rfl, rfl⟩,
    ⟨_, _, _, rfl, rfl, rfl⟩, ⟨_, _, _, rfl, rfl, rfl⟩, nofun⟩

/-- the word that some characters begin with -/
def word? (cs : List Char) : Option (List Char × Value) := words.find? fun w => w.1.isPrefixOf cs

theorem word?_append {w : List Char × Value} (h : word? cs = some w) : word? (cs ++ more) = some w := by
  unfold word? at h ⊢
  obtain ⟨own, before, after, split, others⟩ := List.find?_eq_some_iff_append.mp h
  rw [List.find?_eq_some_iff_append]
  rw [List.isPrefixOf_iff_prefix] at own
  have own' : w.1 <+: cs ++ more := own.trans (List.prefix_append cs more)
  refine ⟨List.isPrefixOf_iff_prefix.mpr own', before, after, split, fun u hu => ?_⟩
  rw [Bool.not_eq_true', ← Bool.not_eq_true, List.isPrefixOf_iff_prefix]
  intro begins
  have mem : w ∈ words := split ▸ List.mem_append_right _ List.mem_cons_self
  have mem' : u ∈ words := split ▸ List.mem_append_left _ hu
  -- of two words in front of the same characters one begins the other
  have same : u.1 = w.1 := by
    rcases List.prefix_or_prefix_of_prefix begins own' with h | h
    · exact words_apart w.1 (List.mem_map_of_mem mem) u.1 (List.mem_map_of_mem mem') (List.isPrefixOf_iff_prefix.mpr h)
    · exact (words_apart u.1 (List.mem_map_of_mem mem') w.1 (List.mem_map_of_mem mem)
        (List.isPrefixOf_iff_prefix.mpr h)).symm
  have not := others u hu
  rw [Bool.not_eq_true', ← Bool.not_eq_true, List.isPrefixOf_iff_prefix, same] at not
  exact not own

/-- how a number is read, with its sign -/
def signedNumber (cs : List Char) : Except Error (Value × List Char) :=
  match cs with
  | '-' :: rest => number true rest
  | _ => number false cs

theorem scalar_eq (cs : List Char) : scalar cs =
    match word? cs with
    | some w => .ok (w.2, cs.drop w.1.length)
    | none => signedNumber cs := by
  unfold scalar word?
  cases words.find? fun w => w.1.isPrefixOf cs with
  | some w => rfl
  | none => rfl

theorem signedNumber_append {c : Char} (h : signedNumber cs = .ok (v, c :: rest)) (ends : endsScalar c = true) :
    signedNumber (cs ++ more) = .ok (v, c :: (rest ++ more)) := by
  cases cs with
  | nil => cases h
  | cons d tail =>
    by_cases minus : d = '-'
    · subst minus
      exact number_append (show number true tail = _ from h) ends
    · have plain : ∀ tail, signedNumber (d :: tail) = number false (d :: tail) := by
        intro tail
        simp [signedNumber, minus]
      rw [plain] at h
      rw [List.cons_append, plain, ← List.cons_append]
      exact number_append h ends

/-- what begins as a number does begins no word, whatever stands behind it -/
theorem word?_append_eq_none (h : signedNumber cs ≠ .error .malformed) : word? (cs ++ more) = none := by
  unfold word?
  rw [List.find?_eq_none]
  intro w hw begins
  obtain ⟨a, b, tail, word, first, second⟩ := exists_of_mem_words w.1 (List.mem_map_of_mem hw)
  rw [List.isPrefixOf_iff_prefix, word] at begins
  cases cs with
  | nil => exact h rfl
  | cons d cs =>
    rw [List.cons_append, List.cons_prefix_cons] at begins
    obtain ⟨rfl, begins⟩ := begins
    by_cases minus : a = '-'
    · subst minus
      obtain ⟨c, more', rfl, digit⟩ := exists_digit_of_number (show number true cs ≠ _ from h)
      rw [List.cons_append, List.cons_prefix_cons] at begins
      rw [begins.1, digit] at second
      cases second
    · have plain : signedNumber (a :: cs) = number false (a :: cs) := by
        simp [signedNumber, minus]
      rw [plain] at h
      obtain ⟨c, more', same, digit⟩ := exists_digit_of_number h
      cases same
      rw [digit] at first
      cases first

/-- a word or a number is the same in front of anything behind a character that ends it -/
theorem scalar_append {c : Char} (h : scalar cs = .ok (v, c :: rest)) (ends : endsScalar c = true) :
    scalar (cs ++ more) = .ok (v, c :: (rest ++ more)) := by
  rw [scalar_eq] at h ⊢
  cases begins : word? cs with
  | some w =>
    rw [begins] at h
    rw [word?_append begins]
    dsimp only at h ⊢
    obtain ⟨rfl, left⟩ := Prod.mk.inj (Except.ok.inj h)
    have within : w.1.length ≤ cs.length := by
      have some := congrArg List.length left
      rw [List.length_drop, List.length_cons] at some
      omega
    rw [List.drop_append_of_le_length within, left, List.cons_append]
  | none =>
    rw [begins] at h
    dsimp only at h
    rw [word?_append_eq_none (h.trans_ne nofun)]
    exact signedNumber_append h ends

theorem scalar_ne_list (h : scalar cs = .ok (v, rest)) (xs : List Value) : v ≠ .list xs := by
  have number_ne : ∀ {negative cs}, number negative cs = .ok (v, rest) → v ≠ .list xs := by
    intro negative cs h
    rw [number_eq] at h
    obtain ⟨w, read, same⟩ := map_eq_ok.mp h
    cases same
    exact numberOf_ne_list read xs
  have word_ne : ∀ w ∈ words, w.2 ≠ .list xs := by simp [words]
  rw [scalar_eq] at h
  cases begins : word? cs with
  | some w =>
    rw [begins] at h
    rw [← (Prod.mk.inj (Except.ok.inj h)).1]
    exact word_ne w (List.mem_of_find?_eq_some begins)
  | none =>
    rw [begins] at h
    dsimp only at h
    unfold signedNumber at h
    split at h
    · exact number_ne h
    · exact number_ne h

end LintLedger.Json
