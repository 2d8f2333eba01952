import LintLedger.Output.Location
import LintLedger.Proofs.Outcome
import LintLedger.Proofs.Text.Lines
import LintLedger.Value.Convert
import Mathlib

/-!
# Places that are found again

A place is written as line and column between two brackets, with a colon (`placeText`).  The first place in a
line need not be the one that counts, as the rest of the line has to be readable behind it.  But if no place is
written in the name of a file, then the first place behind that name is found (`locate_append`), for a place
that begins in the name would have to end in it.  Whatever is found is written there (`exists_of_located`).
-/

namespace LintLedger.Output

open Outcome

variable {left right : Char} {cs ds line column rest more file passed : List Char}

/-! ### Runs of digits -/

/-- a run of digits that is not empty -/
structure IsDigits (ds : List Char) : Prop where
  some : ds ≠ []
  digits : ∀ c ∈ ds, Text.isDigit c = true

instance (ds : List Char) : Decidable (IsDigits ds) :=
  decidable_of_iff (ds ≠ [] ∧ ds.all Text.isDigit = true)
    ⟨fun h => ⟨h.1, List.all_eq_true.mp h.2⟩, fun h => ⟨h.some, List.all_eq_true.mpr h.digits⟩⟩

theorem digitsThen_append {c : Char} (digits : IsDigits ds) (other : Text.isDigit c = false) :
    digitsThen (ds ++ c :: rest) = some (ds, c :: rest) := by
  unfold digitsThen
  rw [List.takeWhile_append_of_pos digits.digits, List.dropWhile_append_of_pos digits.digits,
    List.takeWhile_cons_of_neg (by simp [other]), List.dropWhile_cons_of_neg (by simp [other]), List.append_nil]
  exact if_neg (by simpa using digits.some)

theorem exists_of_digitsThen (h : digitsThen cs = some (ds, rest)) : IsDigits ds ∧ cs = ds ++ rest := by
  unfold digitsThen at h
  dsimp only at h
  split at h
  · cases h
  · rename_i some
    cases h
    exact ⟨⟨by simpa using some, fun c hc => List.mem_takeWhile_imp hc⟩, List.takeWhile_append_dropWhile.symm⟩

theorem after_eq_some_iff {c : Char} : after c cs = some rest ↔ cs = c :: rest := by
  cases cs with
  | nil => simp [after]
  | cons d tail => simp [after, eq_comm]

theorem digitValue?_of_isDigit {c : Char} (h : c.isDigit = true) :
    Text.digitValue? c = some (c.toNat - '0'.toNat) := by
  have least : '0'.val.toNat = 48 := rfl
  have most : '9'.val.toNat = 57 := rfl
  simp only [Char.isDigit, Bool.and_eq_true, decide_eq_true_eq, ge_iff_le, UInt32.le_iff_toNat_le] at h
  have own : c.toNat = c.val.toNat := rfl
  unfold Text.digitValue?
  rw [own]
  dsimp only
  rw [if_pos (by omega), if_pos (by simp; omega)]
  rfl

/-- the digits of a number -/
theorem isDigits_toDigits (n : ℕ) : IsDigits (Nat.toDigits 10 n) := by
  refine ⟨Nat.toDigits_ne_nil, fun c hc => ?_⟩
  unfold Text.isDigit
  rw [digitValue?_of_isDigit (Nat.isDigit_of_mem_toDigits (by decide) (by decide) hc)]
  rfl

theorem digitsValue_toDigits (n : ℕ) : Text.digitsValue (Nat.toDigits 10 n) = n := by
  have same : ∀ ds : List Char, (∀ c ∈ ds, c.isDigit = true) → ∀ sum,
      ds.foldl (fun acc c => acc * 10 + (Text.digitValue? c).getD 0) sum = Nat.ofDigitChars 10 ds sum := by
    intro ds digits
    induction ds with
    | nil => exact fun sum => rfl
    | cons c ds ih =>
      intro sum
      rw [List.foldl_cons, digitValue?_of_isDigit (digits c List.mem_cons_self), Option.getD_some,
        ih fun d hd => digits d (List.mem_cons_of_mem c hd), Nat.ofDigitChars_cons, Nat.mul_comm]
  unfold Text.digitsValue
  rw [same _ (fun c => Nat.isDigit_of_mem_toDigits (by decide) (by decide)), Nat.ofDigitChars_ten_toDigits]

/-- the digits of a number are read as that number, unless they are too many -/
theorem integerOfDigits_toDigits {n : ℕ} {i : ℤ} :
    integerOfDigits (Nat.toDigits 10 n) = .ok i ↔ n < 10 ^ digitLimit ∧ i = n := by
  have short : digitLimit < (Nat.toDigits 10 n).length ↔ ¬n < 10 ^ digitLimit := by
    rw [← Nat.length_toDigits_le_iff (by decide) (by decide), Nat.not_le]
  unfold integerOfDigits
  rw [digitsValue_toDigits]
  by_cases huge : digitLimit < (Nat.toDigits 10 n).length
  · rw [if_pos huge]
    exact iff_of_false nofun fun h => short.mp huge h.1
  · rw [if_neg huge, Except.ok.injEq]
    constructor
    · rintro rfl
      exact ⟨not_not.mp (mt short.mpr huge), rfl⟩
    · exact fun h => h.2.symm

/-- something is made of the digits of two numbers just if neither has too many of them -/
theorem bind_integers_eq_ok {β : Type} {m n : ℕ} {make : ℤ → ℤ → β} {b : β} :
    (do let line ← integerOfDigits (Nat.toDigits 10 m)
        let column ← integerOfDigits (Nat.toDigits 10 n)
        return make line column) = .ok b ↔
      (m < 10 ^ digitLimit ∧ n < 10 ^ digitLimit) ∧ b = make m n := by
  constructor
  · intro h
    obtain ⟨line, lines, h⟩ := bind_eq_ok.mp h
    obtain ⟨column, columns, h⟩ := bind_eq_ok.mp h
    obtain ⟨short, rfl⟩ := integerOfDigits_toDigits.mp lines
    obtain ⟨short', rfl⟩ := integerOfDigits_toDigits.mp columns
    cases h
    exact ⟨⟨short, short'⟩, rfl⟩
  · rintro ⟨⟨short, short'⟩, rfl⟩
    rw [integerOfDigits_toDigits.mpr ⟨short, rfl⟩, integerOfDigits_toDigits.mpr ⟨short', rfl⟩]
    rfl

/-! ### Places -/

/-- line and column as they are written between two brackets, with a colon -/
def placeText (left right : Char) (line column : List Char) : List Char :=
  left :: (line ++ ',' :: (column ++ [right, ':']))

theorem isLineEnd_placeText (left' : Text.isLineEnd left = false) (right' : Text.isLineEnd right = false)
    (line' : IsDigits line) (column' : IsDigits column) :
    ∀ c ∈ placeText left right line column, Text.isLineEnd c = false := by
  have digits : ∀ {ds : List Char}, IsDigits ds → ∀ c ∈ ds, Text.isLineEnd c = false := fun h c hc =>
    Text.isLineEnd_of_isDigit (h.digits c hc)
  unfold placeText
  simp only [List.forall_mem_cons, List.forall_mem_append]
  exact ⟨left', digits line', by decide, digits column', right', by decide, List.forall_mem_nil _⟩

/-- whether a place is written anywhere in some characters -/
def HoldsPlace (left right : Char) (cs : List Char) : Prop :=
  ∃ line column, IsDigits line ∧ IsDigits column ∧ placeText left right line column <:+: cs

/-- brackets that are told apart from each other and from what stands between them -/
structure Brackets (left right : Char) : Prop where
  left_isDigit : Text.isDigit left = false
  right_isDigit : Text.isDigit right = false
  left_ne : left ≠ ',' ∧ left ≠ right ∧ left ≠ ':'

theorem coordinates_placeText (brackets : Brackets left right) (line' : IsDigits line) (column' : IsDigits column)
    (more : List Char) :
    coordinates left right (placeText left right line column ++ more) = some (line, column, Text.dropBlanks more) := by
  have comma : Text.isDigit ',' = false := by decide
  unfold coordinates placeText
  simp only [List.cons_append, List.append_assoc, List.nil_append]
  rw [after_eq_some_iff.mpr rfl]
  dsimp only [bind, Option.bind]
  rw [digitsThen_append line' comma]
  dsimp only
  rw [after_eq_some_iff.mpr rfl]
  dsimp only
  rw [digitsThen_append column' brackets.right_isDigit]
  dsimp only
  rw [after_eq_some_iff.mpr rfl]
  dsimp only
  rw [after_eq_some_iff.mpr rfl]
  rfl

theorem exists_of_coordinates (h : coordinates left right cs = some (line, column, rest)) :
    IsDigits line ∧ IsDigits column ∧ ∃ more, cs = placeText left right line column ++ more ∧
      rest = Text.dropBlanks more := by
  unfold coordinates at h
  obtain ⟨cs₁, opened, h⟩ := Option.bind_eq_some_iff.mp h
  obtain ⟨⟨line', cs₂⟩, lines, h⟩ := Option.bind_eq_some_iff.mp h
  obtain ⟨cs₃, comma, h⟩ := Option.bind_eq_some_iff.mp h
  obtain ⟨⟨column', cs₄⟩, columns, h⟩ := Option.bind_eq_some_iff.mp h
  obtain ⟨cs₅, closed, h⟩ := Option.bind_eq_some_iff.mp h
  obtain ⟨cs₆, colon, h⟩ := Option.bind_eq_some_iff.mp h
  cases h
  obtain ⟨digits, rfl⟩ := exists_of_digitsThen lines
  obtain ⟨digits', rfl⟩ := exists_of_digitsThen columns
  rw [after_eq_some_iff] at opened comma closed colon
  subst opened comma closed colon
  exact ⟨digits, digits', cs₆, by simp [placeText], rfl⟩

/-- places are looked for by reading from every character on -/
theorem holdsPlace_iff (brackets : Brackets left right) :
    HoldsPlace left right cs ↔ ∃ tail ∈ cs.tails, coordinates left right tail ≠ none := by
  constructor
  · rintro ⟨line, column, lines, columns, front, back, rfl⟩
    refine ⟨placeText left right line column ++ back, ?_, ?_⟩
    · rw [List.mem_tails, List.append_assoc]
      exact List.suffix_append ..
    · rw [coordinates_placeText brackets lines columns]
      exact nofun
  · rintro ⟨tail, behind, found⟩
    obtain ⟨⟨line, column, rest⟩, read⟩ := Option.ne_none_iff_exists'.mp found
    obtain ⟨lines, columns, more, rfl, -⟩ := exists_of_coordinates read
    refine ⟨line, column, lines, columns, List.IsInfix.trans ?_ ((List.mem_tails _ _).mp behind).isInfix⟩
    exact (List.prefix_append ..).isInfix

/-- a place in front of an opening bracket ends before it, as no place holds one -/
theorem exists_append_of_placeText (brackets : Brackets left right) (lines : IsDigits line) (columns : IsDigits column)
    (some : cs ≠ []) (whole : cs ++ left :: rest = placeText left right line column ++ more) :
    ∃ tail, cs = placeText left right line column ++ tail ∧ more = tail ++ left :: rest := by
  rcases List.append_eq_append_iff.mp whole with ⟨tail, place, begins⟩ | ⟨tail, own, behind⟩
  · cases tail with
    | nil => exact ⟨[], by simp [place], begins.symm⟩
    | cons c tail =>
      obtain ⟨d, cs, rfl⟩ := List.exists_cons_of_ne_nil some
      rw [List.cons_append, List.cons.injEq] at begins
      obtain ⟨rfl, -⟩ := begins
      have inside : left ∈ line ++ ',' :: (column ++ [right, ':']) := by
        have tails := (List.cons.inj place).2
        rw [tails]
        simp
      simp only [List.mem_append, List.mem_cons, List.not_mem_nil, or_false] at inside
      obtain ⟨comma, closing, colon⟩ := brackets.left_ne
      rcases inside with digit | same | digit | same | same
      · exact absurd (lines.digits left digit) (by simp [brackets.left_isDigit])
      · exact absurd same comma
      · exact absurd (columns.digits left digit) (by simp [brackets.left_isDigit])
      · exact absurd same closing
      · exact absurd same colon
  · exact ⟨tail, own, behind⟩

/-- no place begins in characters in which none is written, if an opening bracket follows them -/
theorem coordinates_eq_none (brackets : Brackets left right) (plain : ¬HoldsPlace left right cs) (some : cs ≠ []) :
    coordinates left right (cs ++ left :: rest) = none := by
  rw [Option.eq_none_iff_forall_ne_some]
  rintro ⟨line, column, after⟩ h
  obtain ⟨lines, columns, more, whole, -⟩ := exists_of_coordinates h
  obtain ⟨tail, own, -⟩ := exists_append_of_placeText brackets lines columns some whole
  exact plain ⟨line, column, lines, columns, own ▸ (List.prefix_append _ _).isInfix⟩

theorem located_append {α : Type} {body : List Char → Option α} (brackets : Brackets left right)
    (plain : ¬HoldsPlace left right file) : located left right body passed (file ++ left :: rest) =
      located left right body (file.reverse ++ passed) (left :: rest) := by
  induction file generalizing passed with
  | nil => rfl
  | cons c file ih =>
    have later : ¬HoldsPlace left right file := by
      rintro ⟨line, column, lines, columns, inside⟩
      exact plain ⟨line, column, lines, columns, List.infix_cons inside⟩
    have none : coordinates left right (c :: (file ++ left :: rest)) = none :=
      coordinates_eq_none brackets plain (List.cons_ne_nil c file)
    rw [List.cons_append, located, none]
    simp [ih later]

/-- the first place behind the name of a file in which none is written is found, if the rest can be read -/
theorem locate_append {α : Type} {body : List Char → Option α} {a : α} (brackets : Brackets left right)
    (plain : ¬HoldsPlace left right file) (some : file ≠ []) (line' : IsDigits line) (column' : IsDigits column)
    (read : body (Text.dropBlanks more) = .some a) :
    locate left right body (file ++ (placeText left right line column ++ more)) =
      .some (⟨String.ofList file, line, column⟩, a) := by
  have here := coordinates_placeText brackets line' column' more
  unfold locate
  simp only [placeText, List.cons_append] at here ⊢
  rw [located_append brackets plain, located, List.append_nil, here, List.reverse_reverse]
  simp [some, read]

theorem exists_located {α : Type} {body : List Char → Option α} {a : α} (brackets : Brackets left right)
    (some : passed ≠ [] ∨ file ≠ []) (line' : IsDigits line) (column' : IsDigits column)
    (read : body (Text.dropBlanks more) = .some a) :
    ∃ p rest, located left right body passed (file ++ (placeText left right line column ++ more)) = .some p ∧
      more <:+ rest ∧ body (Text.dropBlanks rest) = .some p.2 := by
  induction file generalizing passed with
  | nil =>
    have own : passed ≠ [] := by simpa using some
    have here := coordinates_placeText brackets line' column' more
    simp only [List.nil_append, placeText, List.cons_append] at here ⊢
    rw [located, here]
    refine ⟨(⟨String.ofList passed.reverse, line, column⟩, a), more, ?_, List.suffix_rfl, read⟩
    simp [own, read]
  | cons c file ih =>
    obtain ⟨p, rest, later, behind, read'⟩ := @ih (c :: passed) (.inl (List.cons_ne_nil c passed))
    rw [List.cons_append]
    unfold located
    dsimp only
    split
    · -- a place that is found before ends before ours begins
      rename_i found here
      split at here
      · cases here
      · obtain ⟨⟨line'', column'', after⟩, place, here⟩ := Option.bind_eq_some_iff.mp here
        obtain ⟨b, read'', here⟩ := Option.bind_eq_some_iff.mp here
        cases here
        obtain ⟨lines, columns, rest', whole, rfl⟩ := exists_of_coordinates place
        obtain ⟨tail, -, rfl⟩ := exists_append_of_placeText brackets lines columns (List.cons_ne_nil c file) whole
        refine ⟨_, _, rfl, ?_, read''⟩
        exact (List.suffix_append (left :: (line ++ ',' :: (column ++ [right, ':']))) more).trans (by simp)
    · exact ⟨p, rest, later, behind, read'⟩

/-- something is found if a place stands anywhere behind a character and the rest can be read, and behind what is
found stands all that stands behind that place -/
theorem exists_locate {α : Type} {body : List Char → Option α} {a : α} (brackets : Brackets left right)
    (some : file ≠ []) (line' : IsDigits line) (column' : IsDigits column)
    (read : body (Text.dropBlanks more) = .some a) :
    ∃ p rest, locate left right body (file ++ (placeText left right line column ++ more)) = .some p ∧
      more <:+ rest ∧ body (Text.dropBlanks rest) = .some p.2 :=
  exists_located brackets (.inr some) line' column' read

/-- what is found is written there -/
theorem exists_of_located {α : Type} {body : List Char → Option α} {p : Location × α}
    (h : located left right body passed cs = some p) : ∃ front more,
      cs = front ++ (placeText left right p.1.line p.1.column ++ more) ∧ passed.reverse ++ front ≠ [] ∧
      p.1.file = String.ofList (passed.reverse ++ front) ∧ IsDigits p.1.line ∧ IsDigits p.1.column ∧
      body (Text.dropBlanks more) = some p.2 := by
  induction cs generalizing passed with
  | nil => cases h
  | cons c rest ih =>
    unfold located at h
    dsimp only at h
    split at h
    · rename_i found here
      cases h
      split at here
      · cases here
      · rename_i some
        obtain ⟨⟨line, column, after⟩, place, here⟩ := Option.bind_eq_some_iff.mp here
        obtain ⟨a, read, here⟩ := Option.bind_eq_some_iff.mp here
        cases here
        obtain ⟨lines, columns, more, whole, rfl⟩ := exists_of_coordinates place
        exact ⟨[], more, whole, by simpa using some, by simp, lines, columns, read⟩
    · obtain ⟨front, more, whole, some, name, lines, columns, read⟩ := ih h
      refine ⟨c :: front, more, ?_, ?_, ?_, lines, columns, read⟩
      · rw [List.cons_append, ← whole]
      · simp
      · rw [name]
        simp

end LintLedger.Output
