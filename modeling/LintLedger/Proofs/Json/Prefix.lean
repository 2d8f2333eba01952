import LintLedger.Proofs.Json.Token
import Mathlib

/-!
# JSON in front of more characters

A text, a list or a map ends at its closing mark, so it is read the same whatever stands behind it; a number
or a word is read the same in front of anything behind a character that cannot go on with it
(`value_append`).  How many steps the reader may take does not matter once they are enough (`value_mono`).
So of a list nothing can be read while its closing bracket is missing (`readChars_front`), and a list with
anything but blanks behind it is malformed (`readChars_append`).
-/

namespace LintLedger.Json

open Outcome

variable {n m : ℕ} {cs rest more : List Char} {v : Value} {xs : List Value} {es done : List (Value × Value)}

/-! ### Values -/

/-- whether some characters begin a text, a list or a map -/
def opens (cs : List Char) : Bool := cs.head?.any fun c => c = '"' || c = '[' || c = '\x7b'

/-- how a value is read, by the readers of its parts -/
inductive Reads (n : ℕ) : List Char → Value → List Char → Prop
  | text {cs rest : List Char} {s : String} (read : textTail? cs = some (s, rest)) :
      Reads n ('"' :: cs) (.text s) rest
  | emptyList {cs rest : List Char} (close : skip cs = ']' :: rest) : Reads n ('[' :: cs) (.list []) rest
  | list {cs rest : List Char} {xs : List Value} (some : ∀ r, skip cs ≠ ']' :: r)
      (read : elements n (skip cs) = .ok (xs, rest)) : Reads n ('[' :: cs) (.list xs) rest
  | emptyMap {cs rest : List Char} (close : skip cs = '\x7d' :: rest) : Reads n ('\x7b' :: cs) (.map []) rest
  | map {cs rest : List Char} {es : List (Value × Value)} (some : ∀ r, skip cs ≠ '\x7d' :: r)
      (read : members n [] (skip cs) = .ok (es, rest)) : Reads n ('\x7b' :: cs) (.map es) rest
  | scalar {cs rest : List Char} {v : Value} (plain : opens cs = false) (read : scalar cs = .ok (v, rest)) :
      Reads n cs v rest

theorem value_of_opens_eq_false (plain : opens cs = false) : value (n + 1) cs = scalar cs := by
  rw [value]
  all_goals
    rintro rest rfl
    cases plain

theorem value_eq_ok_iff : value (n + 1) cs = .ok (v, rest) ↔ Reads n cs v rest := by
  constructor
  · intro h
    cases plain : opens cs with
    | false => exact .scalar plain (value_of_opens_eq_false plain ▸ h)
    | true =>
      rw [value.eq_def] at h
      dsimp only at h
      split at h
      · split at h
        · cases h
        · rename_i read
          cases h
          exact .text read
      · split at h
        · rename_i close
          cases h
          exact .emptyList close
        · rename_i some
          obtain ⟨⟨xs, rest'⟩, read, same⟩ := map_eq_ok.mp h
          cases same
          exact .list some read
      · split at h
        · rename_i close
          cases h
          exact .emptyMap close
        · rename_i some
          obtain ⟨⟨es, rest'⟩, read, same⟩ := map_eq_ok.mp h
          cases same
          exact .map some read
      · rename_i quote bracket brace
        cases cs with
        | nil => cases plain
        | cons c tail =>
          simp only [opens, List.head?_cons, Option.any_some, Bool.or_eq_true, decide_eq_true_eq] at plain
          rcases plain with (rfl | rfl) | rfl
          · exact absurd rfl (quote tail)
          · exact absurd rfl (bracket tail)
          · exact absurd rfl (brace tail)
  · intro h
    cases h with
    | text read => rw [value, read]
    | emptyList close =>
      rw [value, close]
      rfl
    | list some read =>
      rw [value]
      split
      · rename_i close
        exact absurd close (some _)
      · rw [read]
        rfl
    | emptyMap close =>
      rw [value, close]
      rfl
    | map some read =>
      rw [value]
      split
      · rename_i close
        exact absurd close (some _)
      · rw [read]
        rfl
    | scalar plain read => rw [value_of_opens_eq_false plain, read]

/-- how the elements of a list are read: one, and then the others unless the list ends behind it -/
theorem elements_eq_ok_iff : elements (n + 1) cs = .ok (xs, rest) ↔ ∃ x after, value n cs = .ok (x, after) ∧
    (skip after = ']' :: rest ∧ xs = [x] ∨
      ∃ next ys, skip after = ',' :: next ∧ elements n (skip next) = .ok (ys, rest) ∧ xs = x :: ys) := by
  rw [elements]
  constructor
  · intro h
    split at h
    · cases h
    · rename_i x after read
      refine ⟨x, after, read, ?_⟩
      split at h
      · rename_i close
        cases h
        exact .inl ⟨close, rfl⟩
      · rename_i next comma
        obtain ⟨⟨ys, rest'⟩, others, same⟩ := map_eq_ok.mp h
        cases same
        exact .inr ⟨next, ys, comma, others, rfl⟩
      · cases h
  · rintro ⟨x, after, read, ⟨close, rfl⟩ | ⟨next, ys, comma, others, rfl⟩⟩
    · rw [read]
      dsimp only
      rw [close]
      rfl
    · rw [read]
      dsimp only
      rw [comma]
      exact map_eq_ok.mpr ⟨(ys, rest), others, rfl⟩

/-- how the members of a map are read: one, and then the others unless the map ends behind it -/
theorem members_eq_ok_iff : members (n + 1) done cs = .ok (es, rest) ↔
    ∃ begin name colon after v last, cs = '"' :: begin ∧ textTail? begin = some (name, colon) ∧
      skip colon = ':' :: after ∧ value n (skip after) = .ok (v, last) ∧
      (skip last = '\x7d' :: rest ∧ es = Value.putEntry done (.text name) v ∨
        ∃ next, skip last = ',' :: next ∧
          members n (Value.putEntry done (.text name) v) (skip next) = .ok (es, rest)) := by
  constructor
  · intro h
    rw [members.eq_def] at h
    dsimp only at h
    split at h
    · rename_i begin
      split at h
      · cases h
      · rename_i name colon named
        split at h
        · rename_i after separates
          split at h
          · cases h
          · rename_i v last read
            refine ⟨begin, name, colon, after, v, last, rfl, named, separates, read, ?_⟩
            split at h
            · rename_i close
              cases h
              exact .inl ⟨close, rfl⟩
            · rename_i next comma
              exact .inr ⟨next, comma, h⟩
            · cases h
        · cases h
    · cases h
  · rintro ⟨begin, name, colon, after, v, last, rfl, named, separates, read, ends⟩
    rw [members, named]
    simp only [separates, read]
    rcases ends with ⟨close, rfl⟩ | ⟨next, comma, others⟩
    · simp only [close]
    · simp only [comma, others]

/-! ### More steps -/

/-- one more step changes nothing of what has been read -/
theorem reads_succ (n : ℕ) : (∀ cs v rest, value n cs = .ok (v, rest) → value (n + 1) cs = .ok (v, rest)) ∧
    (∀ cs xs rest, elements n cs = .ok (xs, rest) → elements (n + 1) cs = .ok (xs, rest)) ∧
    ∀ done cs es rest, members n done cs = .ok (es, rest) → members (n + 1) done cs = .ok (es, rest) := by
  induction n with
  | zero => exact ⟨nofun, nofun, nofun⟩
  | succ n ih =>
    obtain ⟨values, lists, maps⟩ := ih
    refine ⟨fun cs v rest h => ?_, fun cs xs rest h => ?_, fun done cs es rest h => ?_⟩
    · rw [value_eq_ok_iff] at h ⊢
      cases h with
      | text read => exact .text read
      | emptyList close => exact .emptyList close
      | list some read => exact .list some (lists _ _ _ read)
      | emptyMap close => exact .emptyMap close
      | map some read => exact .map some (maps _ _ _ _ read)
      | scalar plain read => exact .scalar plain read
    · obtain ⟨x, after, read, ends⟩ := elements_eq_ok_iff.mp h
      refine elements_eq_ok_iff.mpr ⟨x, after, values _ _ _ read, ends.imp_right ?_⟩
      rintro ⟨next, ys, comma, others, rfl⟩
      exact ⟨next, ys, comma, lists _ _ _ others, rfl⟩
    · obtain ⟨begin, name, colon, after, v, last, rfl, named, separates, read, ends⟩ := members_eq_ok_iff.mp h
      refine members_eq_ok_iff.mpr ⟨begin, name, colon, after, v, last, rfl, named, separates,
        values _ _ _ read, ends.imp_right ?_⟩
      rintro ⟨next, comma, others⟩
      exact ⟨next, comma, maps _ _ _ _ others⟩

theorem value_mono (le : n ≤ m) (h : value n cs = .ok (v, rest)) : value m cs = .ok (v, rest) := by
  induction le with
  | refl => exact h
  | step _ ih => exact (reads_succ _).1 _ _ _ ih

theorem elements_mono (le : n ≤ m) (h : elements n cs = .ok (xs, rest)) : elements m cs = .ok (xs, rest) := by
  induction le with
  | refl => exact h
  | step _ ih => exact (reads_succ _).2.1 _ _ _ ih

theorem members_mono (le : n ≤ m) (h : members n done cs = .ok (es, rest)) : members m done cs = .ok (es, rest) := by
  induction le with
  | refl => exact h
  | step _ ih => exact (reads_succ _).2.2 _ _ _ _ ih

/-- what is read does not depend on the number of steps -/
theorem value_unique {w : Value} {rest' : List Char} (h : value n cs = .ok (v, rest))
    (h' : value m cs = .ok (w, rest')) :
    v = w ∧ rest = rest' := by
  have first := value_mono (le_max_left n m) h
  rw [value_mono (le_max_right n m) h'] at first
  exact (Prod.mk.inj (Except.ok.inj first)).imp Eq.symm Eq.symm

/-! ### More characters -/

theorem ne_nil_of_value (h : value n cs = .ok (v, rest)) : cs ≠ [] := by
  rintro rfl
  cases n with
  | zero => cases h
  | succ n =>
    cases value_eq_ok_iff.mp h with
    | scalar _ read => cases read

theorem ne_nil_of_elements (h : elements n cs = .ok (xs, rest)) : cs ≠ [] := by
  cases n with
  | zero => cases h
  | succ n =>
    obtain ⟨x, after, read, -⟩ := elements_eq_ok_iff.mp h
    exact ne_nil_of_value read

theorem ne_nil_of_members (h : members n done cs = .ok (es, rest)) : cs ≠ [] := by
  cases n with
  | zero => cases h
  | succ n =>
    obtain ⟨begin, _, _, _, _, _, rfl, -⟩ := members_eq_ok_iff.mp h
    exact List.cons_ne_nil _ _

/-- a value whose end shows: it ends with a mark of its own, or something that cannot go on with it follows -/
def ShowsEnd (cs rest : List Char) : Prop := opens cs = true ∨ ∃ c tail, rest = c :: tail ∧ endsScalar c = true

/-- behind a value that is followed by a mark its end shows -/
theorem showsEnd_of_skip {c : Char} {tail : List Char} (h : skip rest = c :: tail) (ends : endsScalar c = true) :
    ShowsEnd cs rest := by
  cases rest with
  | nil => cases h
  | cons d more =>
    refine .inr ⟨d, more, rfl, ?_⟩
    by_cases blank : isSpace d = true
    · simp [endsScalar, blank]
    · unfold skip at h
      rw [List.dropWhile_cons_of_neg blank] at h
      cases h
      exact ends

/-- what has been read up to an end that shows is read the same in front of anything -/
theorem reads_append (n : ℕ) (more : List Char) :
    (∀ cs v rest, value n cs = .ok (v, rest) → ShowsEnd cs rest → value n (cs ++ more) = .ok (v, rest ++ more)) ∧
    (∀ cs xs rest, elements n cs = .ok (xs, rest) → elements n (cs ++ more) = .ok (xs, rest ++ more)) ∧
    ∀ done cs es rest, members n done cs = .ok (es, rest) → members n done (cs ++ more) = .ok (es, rest ++ more) := by
  induction n with
  | zero => exact ⟨nofun, nofun, nofun⟩
  | succ n ih =>
    obtain ⟨values, lists, maps⟩ := ih
    refine ⟨fun cs v rest h shows => ?_, fun cs xs rest h => ?_, fun done cs es rest h => ?_⟩
    · rw [value_eq_ok_iff]
      cases value_eq_ok_iff.mp h with
      | text read => exact .text (textTail?_append read)
      | emptyList close => exact .emptyList (skip_append_cons close)
      | list some read =>
        rw [List.cons_append]
        refine .list (skip_append_ne some (ne_nil_of_elements read)) ?_
        rw [skip_append (ne_nil_of_elements read)]
        exact lists _ _ _ read
      | emptyMap close => exact .emptyMap (skip_append_cons close)
      | map some read =>
        rw [List.cons_append]
        refine .map (skip_append_ne some (ne_nil_of_members read)) ?_
        rw [skip_append (ne_nil_of_members read)]
        exact maps _ _ _ _ read
      | scalar plain read =>
        rcases shows with own | ⟨c, tail, rfl, ends⟩
        · rw [plain] at own
          cases own
        · obtain ⟨d, cs, rfl⟩ := List.exists_cons_of_ne_nil (ne_nil_of_value h)
          exact .scalar plain (scalar_append read ends)
    · obtain ⟨x, after, read, ends⟩ := elements_eq_ok_iff.mp h
      rcases ends with ⟨close, rfl⟩ | ⟨next, ys, comma, others, rfl⟩
      · exact elements_eq_ok_iff.mpr ⟨x, after ++ more, values _ _ _ read (showsEnd_of_skip close rfl),
          .inl ⟨skip_append_cons close, rfl⟩⟩
      · refine elements_eq_ok_iff.mpr ⟨x, after ++ more, values _ _ _ read (showsEnd_of_skip comma rfl),
          .inr ⟨next ++ more, ys, skip_append_cons comma, ?_, rfl⟩⟩
        rw [skip_append (ne_nil_of_elements others)]
        exact lists _ _ _ others
    · obtain ⟨begin, name, colon, after, v, last, rfl, named, separates, read, ends⟩ := members_eq_ok_iff.mp h
      have read' := fun shows => values _ _ _ read shows
      rw [← skip_append (ne_nil_of_value read)] at read'
      rcases ends with ⟨close, rfl⟩ | ⟨next, comma, others⟩
      · exact members_eq_ok_iff.mpr ⟨begin ++ more, name, colon ++ more, after ++ more, v, last ++ more, rfl,
          textTail?_append named, skip_append_cons separates, read' (showsEnd_of_skip close rfl),
          .inl ⟨skip_append_cons close, rfl⟩⟩
      · refine members_eq_ok_iff.mpr ⟨begin ++ more, name, colon ++ more, after ++ more, v, last ++ more, rfl,
          textTail?_append named, skip_append_cons separates, read' (showsEnd_of_skip comma rfl),
          .inr ⟨next ++ more, skip_append_cons comma, ?_⟩⟩
        rw [skip_append (ne_nil_of_members others)]
        exact maps _ _ _ _ others

/-- a text, a list or a map, and anything in front of what cannot go on with it, is read the same in front of
anything -/
theorem value_append (h : value n cs = .ok (v, rest)) (shows : ShowsEnd cs rest) :
    value n (cs ++ more) = .ok (v, rest ++ more) :=
  (reads_append n more).1 cs v rest h shows

/-! ### Whole texts -/

theorem readChars_eq_ok_iff : readChars cs = .ok v ↔
    ∃ rest, value (2 * cs.length + 2) (skip cs) = .ok (v, rest) ∧ skip rest = [] := by
  unfold readChars
  constructor
  · intro h
    split at h
    · cases h
    · rename_i w rest read
      split at h
      · rename_i ends
        cases h
        exact ⟨rest, read, List.isEmpty_iff.mp ends⟩
      · cases h
  · rintro ⟨rest, read, ends⟩
    rw [read]
    dsimp only
    rw [ends]
    rfl

/-- a list begins with its bracket -/
theorem opens_of_list (h : value n cs = .ok (.list xs, rest)) : opens cs = true := by
  cases n with
  | zero => cases h
  | succ n =>
    cases value_eq_ok_iff.mp h with
    | emptyList => rfl
    | list => rfl
    | scalar _ read => exact absurd rfl (scalar_ne_list read xs)

/-- **A list that is cut off is unreadable.** Of characters that hold a list nothing can be read if some of
them are missing at the end, blanks apart. -/
theorem readChars_front {front back : List Char} (whole : readChars (front ++ back) = .ok (.list xs))
    (missing : skip back ≠ []) : ∃ e, readChars front = .error e := by
  cases read : readChars front with
  | error e => exact ⟨e, rfl⟩
  | ok w =>
    exfalso
    obtain ⟨rest, own, ends⟩ := readChars_eq_ok_iff.mp read
    obtain ⟨rest', all, ends'⟩ := readChars_eq_ok_iff.mp whole
    have some := ne_nil_of_value own
    rw [skip_append some] at all
    have shows : ShowsEnd (skip front) rest := by
      refine .inl ?_
      obtain ⟨c, tail, begins⟩ := List.exists_cons_of_ne_nil some
      have opened := opens_of_list all
      rw [begins] at opened ⊢
      exact opened
    obtain ⟨-, rfl⟩ := value_unique (value_append own shows) all
    rw [skip_append_of_eq_nil ends] at ends'
    exact missing ends'

/-- a list with anything but blanks behind it is malformed -/
theorem readChars_append {noise : List Char} (whole : readChars cs = .ok (.list xs)) :
    readChars (cs ++ noise) = if skip noise = [] then .ok (.list xs) else .error .malformed := by
  obtain ⟨rest, own, ends⟩ := readChars_eq_ok_iff.mp whole
  have all : value (2 * (cs ++ noise).length + 2) (skip (cs ++ noise)) = .ok (.list xs, rest ++ noise) := by
    rw [skip_append (ne_nil_of_value own)]
    refine value_append (value_mono ?_ own) (.inl (opens_of_list own))
    rw [List.length_append]
    omega
  unfold readChars
  rw [all]
  dsimp only
  rw [skip_append_of_eq_nil ends]
  simp only [List.isEmpty_iff]

end LintLedger.Json
