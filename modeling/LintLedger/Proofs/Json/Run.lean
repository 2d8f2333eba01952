import LintLedger.Proofs.Json.Prefix
import Mathlib

/-!
# JSON that holds a number too long to be read

A reader goes from the front to the back: what it leaves is the end of what it was given (`value_isSuffix`).  So
if it stops at a whole number with too many digits, these digits stand in the text, in a row
(`holdsRun_of_readChars`).
-/

namespace LintLedger.Json

open Outcome

variable {n : ℕ} {cs rest : List Char} {v : Value}

/-- whether more digits stand in a row than are read as a whole number -/
def HoldsRun (cs : List Char) : Prop :=
  ∃ ds, ds <:+: cs ∧ digitLimit < ds.length ∧ ∀ c ∈ ds, isPlainDigit c = true

theorem HoldsRun.of_isInfix (h : HoldsRun rest) (within : rest <:+: cs) : HoldsRun cs := by
  obtain ⟨ds, inside, long, digits⟩ := h
  exact ⟨ds, inside.trans within, long, digits⟩

theorem HoldsRun.of_isSuffix (h : HoldsRun rest) (within : rest <:+ cs) : HoldsRun cs := h.of_isInfix within.isInfix

theorem HoldsRun.digitLimit_lt_length (h : HoldsRun cs) : digitLimit < cs.length := by
  obtain ⟨ds, inside, long, -⟩ := h
  exact long.trans_le inside.length_le

/-! ### What is left behind a token -/

theorem skip_isSuffix (cs : List Char) : skip cs <:+ cs := List.dropWhile_suffix _

theorem isSuffix_of_skip {c : Char} (h : skip cs = c :: rest) : rest <:+ cs :=
  (List.suffix_cons c rest).trans (h ▸ skip_isSuffix cs)

theorem wholePart_fst_isPrefix (cs : List Char) :
    (wholePart cs).1 <+: cs ∧ ∀ c ∈ (wholePart cs).1, isPlainDigit c = true := by
  unfold wholePart
  split
  · rename_i rest
    exact ⟨List.prefix_append ['0'] rest, by simp [isPlainDigit]⟩
  · exact ⟨List.takeWhile_prefix _, fun c hc => List.mem_takeWhile_imp hc⟩

theorem wholePart_snd_isSuffix (cs : List Char) : (wholePart cs).2 <:+ cs := by
  unfold wholePart
  split
  · exact List.suffix_cons ..
  · exact List.dropWhile_suffix _

theorem fractionPart_snd_isSuffix (cs : List Char) : (fractionPart cs).2 <:+ cs := by
  unfold fractionPart
  split
  · rename_i rest
    dsimp only
    split
    · exact List.suffix_rfl
    · exact (List.dropWhile_suffix _).trans (List.suffix_cons ..)
  · exact List.suffix_rfl

theorem splitSign_snd_isSuffix (cs : List Char) : (Decimal.splitSign cs).2 <:+ cs := by
  unfold Decimal.splitSign
  split
  · exact List.suffix_cons ..
  · exact List.suffix_cons ..
  · exact List.suffix_rfl

theorem exponentPart_snd_isSuffix (cs : List Char) : (exponentPart cs).2 <:+ cs := by
  unfold exponentPart
  split
  · split
    · dsimp only
      split
      · exact List.suffix_rfl
      · exact (List.dropWhile_suffix _).trans ((splitSign_snd_isSuffix _).trans (List.suffix_cons ..))
    · exact List.suffix_rfl
  · exact List.suffix_rfl

theorem number_isSuffix {negative : Bool} (h : number negative cs = .ok (v, rest)) : rest <:+ cs := by
  rw [number_eq] at h
  obtain ⟨w, -, same⟩ := map_eq_ok.mp h
  cases same
  exact (exponentPart_snd_isSuffix _).trans ((fractionPart_snd_isSuffix _).trans (wholePart_snd_isSuffix cs))

theorem holdsRun_of_number {negative : Bool} {k : ℕ} (h : number negative cs = .error (.hugeInteger k)) :
    HoldsRun cs := by
  obtain ⟨begins, digits⟩ := wholePart_fst_isPrefix cs
  rw [number_eq, map_eq_error] at h
  unfold numberOf at h
  split at h
  · cases h
  · split at h
    · split at h
      · rename_i long
        exact ⟨_, begins.isInfix, long, digits⟩
      · cases h
    · cases h

theorem signedNumber_eq (cs : List Char) : ∃ negative rest, rest <:+ cs ∧ signedNumber cs = number negative rest := by
  unfold signedNumber
  split
  · exact ⟨true, _, List.suffix_cons .., rfl⟩
  · exact ⟨false, cs, List.suffix_rfl, rfl⟩

theorem scalar_isSuffix (h : scalar cs = .ok (v, rest)) : rest <:+ cs := by
  rw [scalar_eq] at h
  split at h
  · cases h
    exact List.drop_suffix ..
  · obtain ⟨negative, digits, within, same⟩ := signedNumber_eq cs
    exact (number_isSuffix (same ▸ h)).trans within

theorem holdsRun_of_scalar {k : ℕ} (h : scalar cs = .error (.hugeInteger k)) : HoldsRun cs := by
  rw [scalar_eq] at h
  split at h
  · cases h
  · obtain ⟨negative, digits, within, same⟩ := signedNumber_eq cs
    exact (holdsRun_of_number (same ▸ h)).of_isSuffix within

/-- a text ends with its closing quote -/
theorem unitsTail?_isSuffix {units : List ℕ} (h : unitsTail? cs = some (units, rest)) : '"' :: rest <:+ cs := by
  fun_induction unitsTail? cs generalizing units rest with
  | case1 => cases h
  | case2 tail =>
    cases h
    exact List.suffix_rfl
  | case3 p q r s tail n units' rest' read hex ih =>
    cases h
    exact (ih read).trans (List.suffix_append ['\\', 'u', p, q, r, s] tail)
  | case4 => cases h
  | case5 e tail short c units' rest' read escape ih =>
    cases h
    exact (ih read).trans (List.suffix_append ['\\', e] tail)
  | case6 => cases h
  | case7 => cases h
  | case8 c tail quote short escape plain ih =>
    obtain ⟨⟨units', rest'⟩, read, same⟩ := Option.map_eq_some_iff.mp h
    cases same
    exact (ih read).trans (List.suffix_cons ..)

theorem textTail?_isSuffix {s : String} (h : textTail? cs = some (s, rest)) : rest <:+ cs := by
  obtain ⟨⟨units, rest'⟩, read, same⟩ := Option.map_eq_some_iff.mp h
  cases same
  exact (List.suffix_cons ..).trans (unitsTail?_isSuffix read)

/-! ### What is left behind a value -/

theorem reads_isSuffix (n : ℕ) : (∀ cs v rest, value n cs = .ok (v, rest) → rest <:+ cs) ∧
    (∀ cs xs rest, elements n cs = .ok (xs, rest) → rest <:+ cs) ∧
    ∀ done cs es rest, members n done cs = .ok (es, rest) → rest <:+ cs := by
  induction n with
  | zero => exact ⟨nofun, nofun, nofun⟩
  | succ n ih =>
    obtain ⟨values, lists, maps⟩ := ih
    refine ⟨fun cs v rest h => ?_, fun cs xs rest h => ?_, fun done cs es rest h => ?_⟩
    · cases value_eq_ok_iff.mp h with
      | text read => exact (textTail?_isSuffix read).trans (List.suffix_cons ..)
      | emptyList close => exact (isSuffix_of_skip close).trans (List.suffix_cons ..)
      | list some read => exact (lists _ _ _ read).trans ((skip_isSuffix _).trans (List.suffix_cons ..))
      | emptyMap close => exact (isSuffix_of_skip close).trans (List.suffix_cons ..)
      | map some read => exact (maps _ _ _ _ read).trans ((skip_isSuffix _).trans (List.suffix_cons ..))
      | scalar plain read => exact scalar_isSuffix read
    · obtain ⟨x, after, read, ends⟩ := elements_eq_ok_iff.mp h
      have behind := values _ _ _ read
      rcases ends with ⟨close, -⟩ | ⟨next, ys, comma, others, -⟩
      · exact (isSuffix_of_skip close).trans behind
      · exact (lists _ _ _ others).trans ((skip_isSuffix _).trans ((isSuffix_of_skip comma).trans behind))
    · obtain ⟨begin, name, colon, after, v, last, rfl, named, separates, read, ends⟩ := members_eq_ok_iff.mp h
      have behind : last <:+ '"' :: begin :=
        (values _ _ _ read).trans ((skip_isSuffix _).trans ((isSuffix_of_skip separates).trans
          ((textTail?_isSuffix named).trans (List.suffix_cons ..))))
      rcases ends with ⟨close, -⟩ | ⟨next, comma, others⟩
      · exact (isSuffix_of_skip close).trans behind
      · exact (maps _ _ _ _ others).trans ((skip_isSuffix _).trans ((isSuffix_of_skip comma).trans behind))

theorem value_isSuffix (h : value n cs = .ok (v, rest)) : rest <:+ cs := (reads_isSuffix n).1 cs v rest h

/-! ### Where reading stops -/

/-- how a reader stops at a number with too many digits, by the readers of the parts -/
inductive Stops (n k : ℕ) : List Char → Prop
  | list {cs : List Char} (some : ∀ r, skip cs ≠ ']' :: r)
      (stops : elements n (skip cs) = .error (.hugeInteger k)) : Stops n k ('[' :: cs)
  | map {cs : List Char} (some : ∀ r, skip cs ≠ '\x7d' :: r)
      (stops : members n [] (skip cs) = .error (.hugeInteger k)) : Stops n k ('\x7b' :: cs)
  | scalar {cs : List Char} (plain : opens cs = false) (stops : scalar cs = .error (.hugeInteger k)) :
      Stops n k cs

theorem value_eq_stop_iff {k : ℕ} : value (n + 1) cs = .error (.hugeInteger k) ↔ Stops n k cs := by
  constructor
  · intro h
    cases plain : opens cs with
    | false => exact .scalar plain (value_of_opens_eq_false plain ▸ h)
    | true =>
      rw [value.eq_def] at h
      dsimp only at h
      split at h
      · split at h <;> cases h
      · split at h
        · cases h
        · rename_i some
          exact .list some (map_eq_error.mp h)
      · split at h
        · cases h
        · rename_i some
          exact .map some (map_eq_error.mp h)
      · rename_i text list map
        cases cs with
        | nil => cases plain
        | cons c cs =>
          simp only [opens, List.head?_cons, Option.any_some, Bool.or_eq_true, decide_eq_true_eq] at plain
          rcases plain with (rfl | rfl) | rfl
          · exact absurd rfl (text cs)
          · exact absurd rfl (list cs)
          · exact absurd rfl (map cs)
  · rintro (⟨some, stops⟩ | ⟨some, stops⟩ | ⟨plain, stops⟩)
    · rw [value]
      split
      · rename_i close
        exact absurd close (some _)
      · exact map_eq_error.mpr stops
    · rw [value]
      split
      · rename_i close
        exact absurd close (some _)
      · exact map_eq_error.mpr stops
    · rw [value_of_opens_eq_false plain, stops]

/-- the elements of a list stop in one of them, or in those behind it -/
theorem elements_eq_stop_iff {k : ℕ} : elements (n + 1) cs = .error (.hugeInteger k) ↔
    value n cs = .error (.hugeInteger k) ∨ ∃ x after next, value n cs = .ok (x, after) ∧
      skip after = ',' :: next ∧ elements n (skip next) = .error (.hugeInteger k) := by
  rw [elements]
  constructor
  · intro h
    split at h
    · rename_i e failed
      cases h
      exact .inl failed
    · rename_i x after read
      split at h
      · cases h
      · rename_i next comma
        exact .inr ⟨x, after, next, read, comma, map_eq_error.mp h⟩
      · cases h
  · rintro (failed | ⟨x, after, next, read, comma, stops⟩)
    · rw [failed]
    · rw [read]
      dsimp only
      rw [comma]
      exact map_eq_error.mpr stops

/-- the members of a map stop in the value of one of them, or in those behind it -/
theorem members_eq_stop_iff {k : ℕ} {done : List (Value × Value)} :
    members (n + 1) done cs = .error (.hugeInteger k) ↔
      ∃ begin name colon after, cs = '"' :: begin ∧ textTail? begin = some (name, colon) ∧
        skip colon = ':' :: after ∧ (value n (skip after) = .error (.hugeInteger k) ∨
          ∃ v last next, value n (skip after) = .ok (v, last) ∧ skip last = ',' :: next ∧
            members n (Value.putEntry done (.text name) v) (skip next) = .error (.hugeInteger k)) := by
  constructor
  · intro h
    rw [members.eq_def] at h
    dsimp only at h
    split at h
    · rename_i begin
      split at h
      · cases h
      · rename_i name colon named
        split at h
        · rename_i after separates
          refine ⟨begin, name, colon, after, rfl, named, separates, ?_⟩
          split at h
          · rename_i e failed
            cases h
            exact .inl failed
          · rename_i v last read
            split at h
            · cases h
            · rename_i next comma
              exact .inr ⟨v, last, next, read, comma, h⟩
            · cases h
        · cases h
    · cases h
  · rintro ⟨begin, name, colon, after, rfl, named, separates, stops⟩
    rw [members, named]
    simp only [separates]
    rcases stops with failed | ⟨v, last, next, read, comma, stops⟩
    · simp only [failed]
    · simp only [read, comma, stops]

/-- a reader that stops at a number with too many digits has been given these digits -/
theorem reads_holdsRun (n k : ℕ) : (∀ cs, value n cs = .error (.hugeInteger k) → HoldsRun cs) ∧
    (∀ cs, elements n cs = .error (.hugeInteger k) → HoldsRun cs) ∧
    ∀ done cs, members n done cs = .error (.hugeInteger k) → HoldsRun cs := by
  induction n with
  | zero => exact ⟨nofun, nofun, nofun⟩
  | succ n ih =>
    obtain ⟨values, lists, maps⟩ := ih
    refine ⟨fun cs h => ?_, fun cs h => ?_, fun done cs h => ?_⟩
    · cases value_eq_stop_iff.mp h with
      | list _ stops => exact (lists _ stops).of_isSuffix ((skip_isSuffix _).trans (List.suffix_cons ..))
      | map _ stops => exact (maps _ _ stops).of_isSuffix ((skip_isSuffix _).trans (List.suffix_cons ..))
      | scalar _ stops => exact holdsRun_of_scalar stops
    · rcases elements_eq_stop_iff.mp h with failed | ⟨x, after, next, read, comma, stops⟩
      · exact values _ failed
      · exact (lists _ stops).of_isSuffix
          ((skip_isSuffix _).trans ((isSuffix_of_skip comma).trans (value_isSuffix read)))
    · obtain ⟨begin, name, colon, after, rfl, named, separates, stops⟩ := members_eq_stop_iff.mp h
      have behind : skip after <:+ '"' :: begin := (skip_isSuffix _).trans ((isSuffix_of_skip separates).trans
        ((textTail?_isSuffix named).trans (List.suffix_cons ..)))
      rcases stops with failed | ⟨v, last, next, read, comma, stops⟩
      · exact (values _ failed).of_isSuffix behind
      · exact (maps _ _ stops).of_isSuffix
          ((skip_isSuffix _).trans ((isSuffix_of_skip comma).trans ((value_isSuffix read).trans behind)))

/-- reading stops at a number with too many digits only in a text that holds these digits -/
theorem holdsRun_of_readChars {k : ℕ} (h : readChars cs = .error (.hugeInteger k)) : HoldsRun cs := by
  unfold readChars at h
  split at h
  · rename_i e failed
    cases h
    exact ((reads_holdsRun _ k).1 _ failed).of_isSuffix (skip_isSuffix cs)
  · split at h <;> cases h

end LintLedger.Json
