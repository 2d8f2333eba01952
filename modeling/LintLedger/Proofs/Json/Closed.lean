import LintLedger.Proofs.Json.Run
import Mathlib

/-!
# JSON that ends with a closing bracket

A list ends with its bracket, blanks apart (`closes_of_list`).  Whatever is read of characters that end so is
read before that bracket, so a reader that stops at a number with too many digits stops there whatever stands
behind them (`readChars_append_of_stops`).
-/

namespace LintLedger.Json

open Outcome

variable {n m k : ℕ} {cs rest more : List Char} {xs : List Value} {done : List (Value × Value)}

/-- whether some characters end with a closing bracket, blanks apart -/
def Closes (cs : List Char) : Prop := ∃ front blanks, cs = front ++ ']' :: blanks ∧ skip blanks = []

theorem Closes.mem (h : Closes cs) : ']' ∈ cs := by
  obtain ⟨front, blanks, rfl, -⟩ := h
  exact List.mem_append_right front List.mem_cons_self

/-- the end of characters that end with a bracket ends with it too, unless only blanks are left -/
theorem Closes.of_isSuffix (h : Closes cs) (within : rest <:+ cs) (some : skip rest ≠ []) : Closes rest := by
  obtain ⟨front, blanks, rfl, blank⟩ := h
  obtain ⟨gone, whole⟩ := within
  rcases List.append_eq_append_iff.mp whole with ⟨left, -, rfl⟩ | ⟨_ | ⟨c, gone'⟩, -, behind⟩
  · exact ⟨left, blanks, rfl, blank⟩
  · exact ⟨[], blanks, behind.symm, blank⟩
  · obtain ⟨-, rfl⟩ := List.cons.inj behind
    refine absurd (List.dropWhile_eq_nil_iff.mpr fun d hd => ?_) some
    exact List.dropWhile_eq_nil_iff.mp blank d (List.mem_append_right gone' hd)

theorem Closes.skip (h : Closes cs) (within : rest <:+ cs) (filled : Json.skip rest ≠ []) :
    Closes (Json.skip rest) := by
  refine h.of_isSuffix ((skip_isSuffix rest).trans within) ?_
  unfold Json.skip at filled ⊢
  rwa [List.dropWhile_idempotent]

/-! ### Where a list ends -/

theorem exists_of_skip {c : Char} (h : skip cs = c :: rest) : ∃ front, cs = front ++ c :: rest := by
  obtain ⟨front, same⟩ := skip_isSuffix cs
  exact ⟨front, by rw [← same, h]⟩

theorem exists_bracket_of_elements (h : elements n cs = .ok (xs, rest)) : ∃ front, cs = front ++ ']' :: rest := by
  induction n generalizing cs xs with
  | zero => cases h
  | succ n ih =>
    obtain ⟨x, after, read, ends⟩ := elements_eq_ok_iff.mp h
    obtain ⟨front, rfl⟩ := value_isSuffix read
    rcases ends with ⟨close, -⟩ | ⟨next, ys, comma, others, -⟩
    · obtain ⟨blanks, rfl⟩ := exists_of_skip close
      exact ⟨front ++ blanks, (List.append_assoc ..).symm⟩
    · obtain ⟨last, same⟩ := ih others
      obtain ⟨blanks, rfl⟩ := exists_of_skip comma
      obtain ⟨blanks', same'⟩ := skip_isSuffix next
      refine ⟨front ++ blanks ++ ',' :: blanks' ++ last, ?_⟩
      rw [← same', same]
      simp

theorem exists_bracket_of_value (h : value n cs = .ok (.list xs, rest)) : ∃ front, cs = front ++ ']' :: rest := by
  cases n with
  | zero => cases h
  | succ n =>
    cases value_eq_ok_iff.mp h with
    | @emptyList tail rest close =>
      obtain ⟨blanks, rfl⟩ := exists_of_skip close
      exact ⟨'[' :: blanks, rfl⟩
    | @list tail rest xs some read =>
      obtain ⟨front, same⟩ := exists_bracket_of_elements read
      obtain ⟨blanks, same'⟩ := skip_isSuffix tail
      exact ⟨'[' :: blanks ++ front, by rw [← same', same]; simp⟩
    | scalar _ read => exact absurd rfl (scalar_ne_list read xs)

/-- characters that hold a list end with its bracket -/
theorem closes_of_list (h : readChars cs = .ok (.list xs)) : Closes cs := by
  obtain ⟨rest, read, ends⟩ := readChars_eq_ok_iff.mp h
  obtain ⟨front, same⟩ := exists_bracket_of_value read
  obtain ⟨blanks, same'⟩ := skip_isSuffix cs
  exact ⟨blanks ++ front, rest, by rw [← same', same]; simp, ends⟩

/-! ### Numbers in front of a bracket -/

/-- a fraction that is not there in front of a bracket is not there in front of more characters either -/
theorem fractionPart_append_of_none (none : (fractionPart cs).1 = []) (close : ']' ∈ cs) :
    fractionPart (cs ++ more) = ([], cs ++ more) ∧ fractionPart cs = ([], cs) := by
  cases cs with
  | nil => cases close
  | cons c cs =>
    by_cases point : c = '.'
    · subst point
      obtain ⟨d, cs, rfl⟩ := List.exists_cons_of_ne_nil (List.ne_nil_of_mem (List.mem_of_ne_of_mem (by decide) close))
      have other : isPlainDigit d = false := by
        by_contra digit
        rw [Bool.not_eq_false] at digit
        simp [fractionPart, digit] at none
      simp [fractionPart, other]
    · simp [fractionPart, point]

theorem mem_splitSign (close : ']' ∈ cs) : ']' ∈ (Decimal.splitSign cs).2 := by
  unfold Decimal.splitSign
  split
  · exact List.mem_of_ne_of_mem (by decide) close
  · exact List.mem_of_ne_of_mem (by decide) close
  · exact close

/-- so it is with an exponent -/
theorem exponentPart_append_of_none (none : (exponentPart cs).1 = .none) (close : ']' ∈ cs) :
    (exponentPart (cs ++ more)).1 = .none := by
  cases cs with
  | nil => cases close
  | cons c cs =>
    by_cases letter : c = 'e' ∨ c = 'E'
    · have behind : ']' ∈ cs := List.mem_of_ne_of_mem (by rintro rfl; exact absurd letter (by decide)) close
      simp only [exponentPart, List.cons_append, Bool.or_eq_true, decide_eq_true_eq, if_pos letter] at none ⊢
      rw [splitSign_append (List.ne_nil_of_mem behind)]
      obtain ⟨d, tail, digits⟩ := List.exists_cons_of_ne_nil (List.ne_nil_of_mem (mem_splitSign behind))
      rw [digits] at none ⊢
      have other : isPlainDigit d = false := by
        by_contra digit
        rw [Bool.not_eq_false] at digit
        simp [digit] at none
      simp [other]
    · simp [exponentPart, letter]

theorem mem_wholePart (close : ']' ∈ cs) : ']' ∈ (wholePart cs).2 := by
  unfold wholePart
  split
  · exact List.mem_of_ne_of_mem (by decide) close
  · rw [← List.takeWhile_append_dropWhile (p := isPlainDigit) (l := cs), List.mem_append] at close
    exact close.resolve_left fun digit => absurd (List.mem_takeWhile_imp digit) (by decide)

/-- only a number without a fraction and an exponent can have too many digits -/
theorem numberOf_eq_stop {negative : Bool} {whole fraction : List Char} {exponent : Option ℤ}
    (h : numberOf negative whole fraction exponent = .error (.hugeInteger k)) : fraction = [] ∧ exponent = none := by
  unfold numberOf at h
  split at h
  · cases h
  · split at h
    · rename_i bare
      rw [Bool.and_eq_true, List.isEmpty_iff, Option.isNone_iff_eq_none] at bare
      exact bare
    · cases h

theorem number_append_of_stops {negative : Bool} (h : number negative cs = .error (.hugeInteger k))
    (close : ']' ∈ cs) : number negative (cs ++ more) = .error (.hugeInteger k) := by
  rw [number_eq, map_eq_error] at h ⊢
  -- the digits end in front of the bracket at the latest, and nothing else of a number follows them
  have behind := mem_wholePart close
  obtain ⟨point, letter⟩ := numberOf_eq_stop h
  obtain ⟨later, now⟩ := @fractionPart_append_of_none _ more point behind
  rw [now] at h letter
  rw [wholePart_append (List.ne_nil_of_mem behind), later, exponentPart_append_of_none letter behind]
  rw [letter] at h
  exact h

theorem signedNumber_append_of_stops (h : signedNumber cs = .error (.hugeInteger k)) (close : ']' ∈ cs) :
    signedNumber (cs ++ more) = .error (.hugeInteger k) := by
  cases cs with
  | nil => cases close
  | cons c cs =>
    by_cases minus : c = '-'
    · subst minus
      exact number_append_of_stops (show number true cs = _ from h) (List.mem_of_ne_of_mem (by decide) close)
    · have plain : ∀ cs, signedNumber (c :: cs) = number false (c :: cs) := by
        intro cs
        simp [signedNumber, minus]
      rw [plain] at h
      rw [List.cons_append, plain, ← List.cons_append]
      exact number_append_of_stops h close

theorem scalar_append_of_stops (h : scalar cs = .error (.hugeInteger k)) (close : ']' ∈ cs) :
    scalar (cs ++ more) = .error (.hugeInteger k) := by
  rw [scalar_eq] at h ⊢
  cases begins : word? cs with
  | some w =>
    rw [begins] at h
    cases h
  | none =>
    rw [begins] at h
    dsimp only at h
    rw [word?_append_eq_none (h.trans_ne nofun)]
    exact signedNumber_append_of_stops h close

/-! ### Where reading stops -/

/-- one more step does not lead beyond a number with too many digits -/
theorem stops_succ (n k : ℕ) :
    (∀ cs, value n cs = .error (.hugeInteger k) → value (n + 1) cs = .error (.hugeInteger k)) ∧
    (∀ cs, elements n cs = .error (.hugeInteger k) → elements (n + 1) cs = .error (.hugeInteger k)) ∧
    ∀ done cs, members n done cs = .error (.hugeInteger k) → members (n + 1) done cs = .error (.hugeInteger k) := by
  induction n with
  | zero => exact ⟨nofun, nofun, nofun⟩
  | succ n ih =>
    obtain ⟨values, lists, maps⟩ := ih
    obtain ⟨read, -, -⟩ := reads_succ n
    refine ⟨fun cs h => ?_, fun cs h => ?_, fun done cs h => ?_⟩
    · rw [value_eq_stop_iff] at h ⊢
      cases h with
      | list some stops => exact .list some (lists _ stops)
      | map some stops => exact .map some (maps _ _ stops)
      | scalar plain stops => exact .scalar plain stops
    · refine elements_eq_stop_iff.mpr ((elements_eq_stop_iff.mp h).imp (values _) ?_)
      rintro ⟨x, after, next, first, comma, stops⟩
      exact ⟨x, after, next, read _ _ _ first, comma, lists _ stops⟩
    · obtain ⟨begin, name, colon, after, rfl, named, separates, stops⟩ := members_eq_stop_iff.mp h
      refine members_eq_stop_iff.mpr ⟨begin, name, colon, after, rfl, named, separates,
        stops.imp (values _) ?_⟩
      rintro ⟨v, last, next, first, comma, stops⟩
      exact ⟨v, last, next, read _ _ _ first, comma, maps _ _ stops⟩

theorem value_mono_of_stops (le : n ≤ m) (h : value n cs = .error (.hugeInteger k)) :
    value m cs = .error (.hugeInteger k) := by
  induction le with
  | refl => exact h
  | step _ ih => exact (stops_succ _ k).1 _ ih

theorem ne_nil_of_value_stop (h : value n cs = .error (.hugeInteger k)) : cs ≠ [] := by
  rintro rfl
  cases n with
  | zero => cases h
  | succ n =>
    cases value_eq_stop_iff.mp h with
    | scalar _ stops => cases stops

theorem ne_nil_of_elements_stop (h : elements n cs = .error (.hugeInteger k)) : cs ≠ [] := by
  cases n with
  | zero => cases h
  | succ n =>
    rcases elements_eq_stop_iff.mp h with stops | ⟨x, after, next, first, -⟩
    · exact ne_nil_of_value_stop stops
    · exact ne_nil_of_value first

theorem ne_nil_of_members_stop (h : members n done cs = .error (.hugeInteger k)) : cs ≠ [] := by
  cases n with
  | zero => cases h
  | succ n =>
    obtain ⟨begin, _, _, _, rfl, -⟩ := members_eq_stop_iff.mp h
    exact List.cons_ne_nil _ _

/-- a reader that stops in front of a closing bracket stops there whatever stands behind it -/
theorem stops_append (n k : ℕ) (more : List Char) :
    (∀ cs, Closes cs → value n cs = .error (.hugeInteger k) → value n (cs ++ more) = .error (.hugeInteger k)) ∧
    (∀ cs, Closes cs → elements n cs = .error (.hugeInteger k) → elements n (cs ++ more) = .error (.hugeInteger k)) ∧
    ∀ done cs, Closes cs → members n done cs = .error (.hugeInteger k) →
      members n done (cs ++ more) = .error (.hugeInteger k) := by
  induction n with
  | zero => exact ⟨fun _ _ => nofun, fun _ _ => nofun, fun _ _ _ => nofun⟩
  | succ n ih =>
    obtain ⟨values, lists, maps⟩ := ih
    refine ⟨fun cs close h => ?_, fun cs close h => ?_, fun done cs close h => ?_⟩
    · rw [value_eq_stop_iff]
      cases value_eq_stop_iff.mp h with
      | list some stops =>
        have filled := ne_nil_of_elements_stop stops
        rw [List.cons_append]
        refine .list (skip_append_ne some filled) ?_
        rw [skip_append filled]
        exact lists _ (close.skip ⟨['['], rfl⟩ filled) stops
      | map some stops =>
        have filled := ne_nil_of_members_stop stops
        rw [List.cons_append]
        refine .map (skip_append_ne some filled) ?_
        rw [skip_append filled]
        exact maps _ _ (close.skip ⟨['\x7b'], rfl⟩ filled) stops
      | scalar plain stops =>
        obtain ⟨c, cs, rfl⟩ := List.exists_cons_of_ne_nil (List.ne_nil_of_mem close.mem)
        exact .scalar plain (scalar_append_of_stops stops close.mem)
    · refine elements_eq_stop_iff.mpr ((elements_eq_stop_iff.mp h).imp (values _ close) ?_)
      rintro ⟨x, after, next, first, comma, stops⟩
      have filled := ne_nil_of_elements_stop stops
      have within : next <:+ cs := (isSuffix_of_skip comma).trans (value_isSuffix first)
      refine ⟨x, after ++ more, next ++ more, value_append first (showsEnd_of_skip comma rfl),
        skip_append_cons comma, ?_⟩
      rw [skip_append filled]
      exact lists _ (close.skip within filled) stops
    · obtain ⟨begin, name, colon, after, rfl, named, separates, stops⟩ := members_eq_stop_iff.mp h
      have behind : after <:+ '"' :: begin :=
        (isSuffix_of_skip separates).trans ((textTail?_isSuffix named).trans (List.suffix_cons ..))
      refine members_eq_stop_iff.mpr ⟨begin ++ more, name, colon ++ more, after ++ more, rfl, textTail?_append named,
        skip_append_cons separates, stops.imp (fun stops => ?_) ?_⟩
      · have filled := ne_nil_of_value_stop stops
        rw [skip_append filled]
        exact values _ (close.skip behind filled) stops
      · rintro ⟨v, last, next, first, comma, stops⟩
        have filled := ne_nil_of_members_stop stops
        have within : next <:+ '"' :: begin :=
          (isSuffix_of_skip comma).trans ((value_isSuffix first).trans ((skip_isSuffix _).trans behind))
        refine ⟨v, last ++ more, next ++ more, ?_, skip_append_cons comma, ?_⟩
        · rw [skip_append (ne_nil_of_value first)]
          exact value_append first (showsEnd_of_skip comma rfl)
        · rw [skip_append filled]
          exact maps _ _ (close.skip within filled) stops

/-- **Numbers with too many digits.** If reading characters that end with a closing bracket stops at a number with
too many digits, it stops there whatever stands behind them. -/
theorem readChars_append_of_stops (h : readChars cs = .error (.hugeInteger k)) (close : Closes cs) :
    readChars (cs ++ more) = .error (.hugeInteger k) := by
  unfold readChars at h
  split at h
  · rename_i e stops
    cases h
    have filled := ne_nil_of_value_stop stops
    have all : value (2 * (cs ++ more).length + 2) (skip (cs ++ more)) = .error (.hugeInteger k) := by
      rw [skip_append filled]
      refine (stops_append _ k more).1 _ (close.skip List.suffix_rfl filled) (value_mono_of_stops ?_ stops)
      rw [List.length_append]
      omega
    unfold readChars
    rw [all]
  · split at h <;> cases h

end LintLedger.Json
