import LintLedger.Output.Compiler
import LintLedger.Proofs.Output.Lines
import LintLedger.Proofs.Output.Location
import Mathlib

/-!
# Compiler output that is read back

A notice is written as the compiler writes it (`Notice.text`), on a line of its own.  A line that is read tells
a diagnostic, whatever blanks stand in it (`tells_of_ofLine?`); a notice is read as it was meant, even if
brackets, colons, digits or whole diagnostics stand in its message, as long as no place stands in the name of
its file (`ofLine?_text`).  So output that has one notice on a line, among lines that tell none, is read back
notice by notice, unless a number has more digits than can be read (`notices_read_back`).
-/

namespace LintLedger.Output

open Outcome

variable {root : Path} {cs rest : List Char}

/-! ### Reading a diagnostic -/

/-- the word for a level -/
def levelWord (isError : Bool) : List Char := if isError then "error".toList else "warning".toList

theorem afterWord_eq_some_iff {word : List Char} : afterWord word cs = some rest ↔ cs = word ++ rest := by
  induction word generalizing cs with
  | nil => simp [afterWord]
  | cons c word ih =>
    unfold afterWord
    rw [Option.bind_eq_some_iff]
    constructor
    · rintro ⟨tail, first, later⟩
      rw [after_eq_some_iff.mp first, ih.mp later, List.cons_append]
    · rintro rfl
      exact ⟨word ++ rest, after_eq_some_iff.mpr rfl, ih.mpr rfl⟩

/-- the characters of the rest of a diagnostic: its level, blanks, its code, and what stands behind the colon -/
def bodyText (isError : Bool) (blanks digits rest : List Char) : List Char :=
  levelWord isError ++ (blanks ++ 'T' :: 'S' :: (digits ++ ':' :: rest))

theorem diagnosticBody_bodyText (isError : Bool) {blanks digits : List Char} (some : blanks ≠ [])
    (blank : ∀ c ∈ blanks, Text.isBlank c = true) (code : IsDigits digits) (said : Text.dropBlanks rest ≠ []) :
    diagnosticBody (bodyText isError blanks digits rest) =
      .some (isError, String.ofList ('T' :: 'S' :: digits), Text.strip (String.ofList (Text.dropBlanks rest))) := by
  have level : levelThen (bodyText isError blanks digits rest) =
      .some (isError, 'T' :: 'S' :: (digits ++ ':' :: rest)) := by
    obtain ⟨c, more, rfl⟩ := List.exists_cons_of_ne_nil some
    have first : Text.isBlank c = true := blank c List.mem_cons_self
    have dropped : Text.dropBlanks (c :: more ++ 'T' :: 'S' :: (digits ++ ':' :: rest)) =
        'T' :: 'S' :: (digits ++ ':' :: rest) := Text.dropBlanks_blanks_append blank rfl
    unfold levelThen bodyText levelWord
    cases isError with
    | true =>
      rw [if_pos rfl, afterWord_eq_some_iff.mpr rfl]
      simpa [first] using dropped
    | false =>
      have other : ∀ rest, afterWord "error".toList ("warning".toList ++ rest) = none := fun _ => rfl
      rw [if_neg Bool.false_ne_true, other, afterWord_eq_some_iff.mpr rfl]
      simpa [first] using dropped
  have letters : afterWord ['T', 'S'] ('T' :: 'S' :: (digits ++ ':' :: rest)) = .some (digits ++ ':' :: rest) :=
    afterWord_eq_some_iff.mpr rfl
  unfold diagnosticBody
  rw [level]
  dsimp only [bind, Option.bind]
  rw [letters]
  dsimp only
  rw [digitsThen_append code (by decide)]
  dsimp only
  rw [after_eq_some_iff.mpr rfl]
  dsimp only
  rw [if_neg (by simpa using said)]

theorem exists_of_levelThen {isError : Bool} (h : levelThen cs = some (isError, rest)) :
    ∃ c more, cs = levelWord isError ++ c :: more ∧ Text.isBlank c = true ∧ rest = Text.dropBlanks (c :: more) := by
  have behind : ∀ (level : Bool) {tail : List Char}, cs = levelWord level ++ tail →
      (if tail.head?.any Text.isBlank then some (level, Text.dropBlanks tail) else none) = some (isError, rest) →
      ∃ c more, cs = levelWord isError ++ c :: more ∧ Text.isBlank c = true ∧
        rest = Text.dropBlanks (c :: more) := by
    intro level tail whole read
    cases tail with
    | nil => cases read
    | cons c more =>
      split at read
      · rename_i first
        cases read
        exact ⟨c, more, whole, by simpa using first, rfl⟩
      · cases read
  unfold levelThen at h
  dsimp only at h
  cases found : afterWord "error".toList cs with
  | some tail =>
    rw [found] at h
    exact behind true (afterWord_eq_some_iff.mp found) h
  | none =>
    rw [found] at h
    obtain ⟨⟨level, tail⟩, other, read⟩ := Option.bind_eq_some_iff.mp h
    obtain ⟨more, word, same⟩ := Option.map_eq_some_iff.mp other
    cases same
    exact behind false (afterWord_eq_some_iff.mp word) read

/-- what is read as the rest of a diagnostic is one -/
theorem exists_of_diagnosticBody {isError : Bool} {code message : String}
    (h : diagnosticBody cs = some (isError, code, message)) : ∃ blanks digits rest,
      cs = bodyText isError blanks digits rest ∧ blanks ≠ [] ∧ (∀ c ∈ blanks, Text.isBlank c = true) ∧
      IsDigits digits ∧ Text.dropBlanks rest ≠ [] ∧ code = String.ofList ('T' :: 'S' :: digits) := by
  obtain ⟨⟨level, cs₁⟩, levels, h⟩ := Option.bind_eq_some_iff.mp h
  obtain ⟨cs₂, letters, h⟩ := Option.bind_eq_some_iff.mp h
  obtain ⟨⟨digits, cs₃⟩, number, h⟩ := Option.bind_eq_some_iff.mp h
  obtain ⟨rest, colon, last⟩ := Option.bind_eq_some_iff.mp h
  obtain ⟨c, more, whole, first, behind⟩ := exists_of_levelThen levels
  obtain ⟨isDigits, own⟩ := exists_of_digitsThen number
  rw [afterWord_eq_some_iff] at letters
  rw [after_eq_some_iff] at colon
  rw [letters, own, colon] at behind
  dsimp only at last
  split at last
  · cases last
  · rename_i said
    cases last
    refine ⟨(c :: more).takeWhile Text.isBlank, digits, rest, ?_, ?_, fun d hd => List.mem_takeWhile_imp hd, isDigits,
      by simpa using said, rfl⟩
    · rw [whole]
      unfold bodyText
      conv_lhs => rw [← List.takeWhile_append_dropWhile (p := Text.isBlank) (l := c :: more)]
      exact congrArg (fun tail => levelWord isError ++ (_ ++ tail)) behind.symm
    · rw [List.takeWhile_cons_of_pos first]
      exact List.cons_ne_nil c _

/-- whether a line holds a diagnostic, with a file in front of it and a message behind it, whatever blanks stand
behind the colons, and between the level and the code -/
def HoldsDiagnostic (line : List Char) : Prop :=
  ∃ file row column gap isError blanks digits message,
    line = file ++ (placeText '(' ')' row column ++ (gap ++ bodyText isError blanks digits message)) ∧
      (∃ c ∈ file, Text.isBlank c = false) ∧ IsDigits row ∧ IsDigits column ∧ (∀ c ∈ gap, Text.isBlank c = true) ∧
      blanks ≠ [] ∧ (∀ c ∈ blanks, Text.isBlank c = true) ∧ IsDigits digits ∧
      ∃ c ∈ message, Text.isBlank c = false

theorem brackets_round : Brackets '(' ')' := ⟨by decide, by decide, by decide⟩

/-- what is read off a line stands there -/
theorem holdsDiagnostic_of_ofLine? {d : Diagnostic} (h : Diagnostic.ofLine? cs = some d) : HoldsDiagnostic cs := by
  obtain ⟨p, placed, -⟩ := Option.map_eq_some_iff.mp h
  obtain ⟨front, more, whole, some, -, row, column, body⟩ := exists_of_located placed
  obtain ⟨blanks, digits, message, behind, between, blank, isDigits, said, -⟩ := exists_of_diagnosticBody body
  obtain ⟨left, right, cut⟩ := Text.exists_trim_eq cs
  have filled : Text.trim cs ≠ [] := by
    rw [whole]
    simp [placeText]
  obtain ⟨c, rest, first, own⟩ := Text.exists_head_trim filled
  refine ⟨left ++ front, p.1.line, p.1.column, more.takeWhile Text.isBlank, p.2.1, blanks, digits, message ++ right,
    ?_, ⟨c, ?_, own⟩, row, column, fun d hd => List.mem_takeWhile_imp hd, between, blank, isDigits, ?_⟩
  · have more' : more = more.takeWhile Text.isBlank ++ bodyText p.2.1 blanks digits message := by
      rw [← behind]
      exact List.takeWhile_append_dropWhile.symm
    conv_lhs => rw [cut, whole, more']
    simp [bodyText]
  · obtain ⟨d, front', rfl⟩ := List.exists_cons_of_ne_nil some
    rw [first, List.cons_append, List.cons.injEq] at whole
    simp [whole.1]
  · obtain ⟨c, hc, filled⟩ := Text.dropBlanks_ne_nil_iff.mp said
    exact ⟨c, List.mem_append_left _ hc, filled⟩

/-- a line tells a diagnostic just if it holds one -/
theorem Diagnostic.ofLine?_eq_none_iff : Diagnostic.ofLine? cs = none ↔ ¬HoldsDiagnostic cs := by
  refine ⟨?_, fun plain => Option.eq_none_iff_forall_ne_some.mpr fun d h => plain (holdsDiagnostic_of_ofLine? h)⟩
  rintro nothing ⟨file, row, column, gap, isError, blanks, digits, message, rfl, file', row', column', gap', between,
    blank, digits', message'⟩
  have trimmed := Text.trim_append
    (placeText '(' ')' row column ++ (gap ++ bodyText isError blanks digits [])) file' message'
  have said : Text.dropBlanks (Text.dropBlanksEnd message) ≠ [] := by
    obtain ⟨c, hc, filled⟩ := message'
    exact Text.dropBlanks_ne_nil_iff.mpr ⟨c, Text.mem_dropBlanksEnd hc filled, filled⟩
  have behind : Text.dropBlanks (gap ++ bodyText isError blanks digits (Text.dropBlanksEnd message)) =
      bodyText isError blanks digits (Text.dropBlanksEnd message) := by
    unfold bodyText levelWord
    cases isError <;> exact Text.dropBlanks_blanks_append gap' rfl
  have body := diagnosticBody_bodyText isError between blank digits' said
  rw [← behind] at body
  obtain ⟨p, -, found, -, -⟩ := exists_locate brackets_round (Text.dropBlanks_ne_nil_iff.mpr file') row' column' body
  have line : Text.trim (file ++ (placeText '(' ')' row column ++ (gap ++ bodyText isError blanks digits message))) =
      Text.dropBlanks file ++ (placeText '(' ')' row column ++
        (gap ++ bodyText isError blanks digits (Text.dropBlanksEnd message))) := by
    simpa [bodyText] using trimmed
  unfold Diagnostic.ofLine? at nothing
  rw [line, found] at nothing
  cases nothing

instance : DecidablePred HoldsDiagnostic := fun cs =>
  decidable_of_iff (Diagnostic.ofLine? cs ≠ none) (not_congr Diagnostic.ofLine?_eq_none_iff |>.trans not_not)

/-! ### Notices -/

/-- one notice of the compiler -/
structure Notice where
  file : String
  line : ℕ
  column : ℕ
  isError : Bool
  code : String
  message : String

namespace Notice

/-- a notice as the compiler writes it -/
def text (n : Notice) : String :=
  n.file ++ "(" ++ Decimal.digitText n.line ++ "," ++ Decimal.digitText n.column ++ "): " ++
    (if n.isError then "error" else "warning") ++ " TS" ++ n.code ++ ": " ++ n.message

/-- whether file and message are lines without blanks at the ends, the code is made of digits, and no place
stands in the name of the file -/
structure IsPlain (n : Notice) : Prop where
  file : Text.IsTidy n.file
  apart : ¬HoldsPlace '(' ')' n.file.toList
  code : IsDigits n.code.toList
  message : Text.IsTidy n.message

instance (n : Notice) : Decidable n.IsPlain :=
  have : Decidable (HoldsPlace '(' ')' n.file.toList) := decidable_of_iff' _ (holdsPlace_iff brackets_round)
  decidable_of_iff (Text.IsTidy n.file ∧ ¬HoldsPlace '(' ')' n.file.toList ∧ IsDigits n.code.toList ∧
      Text.IsTidy n.message)
    ⟨fun h => ⟨h.1, h.2.1, h.2.2.1, h.2.2.2⟩, fun h => ⟨h.file, h.apart, h.code, h.message⟩⟩

/-- the violation that a notice stands for -/
def violation (root : Path) (n : Notice) : Violation where
  file := .text (root.textFrom n.file)
  line := .int n.line
  column := .int n.column
  code := .text n.message
  message := .text n.message
  rule := .text ("TS" ++ n.code)
  category := .known (Catalog.compilerCode ("TS" ++ n.code))
  severity := .known (if n.isError then .error else .warn)
  source := .known .custom
  fix := Value.ofText? (Catalog.fixFor? (Catalog.compilerCode ("TS" ++ n.code)))

variable {n : Notice}

theorem toList_text (n : Notice) : n.text.toList =
    n.file.toList ++ (placeText '(' ')' (Nat.toDigits 10 n.line) (Nat.toDigits 10 n.column) ++
      (' ' :: bodyText n.isError [' '] n.code.toList (' ' :: n.message.toList))) := by
  have level : (if n.isError then "error" else "warning").toList = levelWord n.isError :=
    apply_ite String.toList ..
  unfold text placeText bodyText Decimal.digitText
  simp [level]

theorem isTidy_text (plain : n.IsPlain) : Text.IsTidy n.text := by
  have level : ∀ c ∈ levelWord n.isError, Text.isLineEnd c = false := by
    unfold levelWord
    cases n.isError <;> simp [Text.isLineEnd]
  have digits : ∀ c ∈ n.code.toList, Text.isLineEnd c = false := fun c hc =>
    Text.isLineEnd_of_isDigit (plain.code.digits c hc)
  have between : ∀ c ∈ placeText '(' ')' (Nat.toDigits 10 n.line) (Nat.toDigits 10 n.column) ++
      (' ' :: bodyText n.isError [' '] n.code.toList [' ']), Text.isLineEnd c = false := by
    unfold bodyText
    simp only [List.forall_mem_append, List.forall_mem_cons]
    exact ⟨isLineEnd_placeText (by decide) (by decide) (isDigits_toDigits _) (isDigits_toDigits _), by decide, level,
      ⟨by decide, List.forall_mem_nil _⟩, by decide, by decide, digits, by decide, by decide, List.forall_mem_nil _⟩
  have whole : n.text = n.file ++
      String.ofList (placeText '(' ')' (Nat.toDigits 10 n.line) (Nat.toDigits 10 n.column) ++
      (' ' :: bodyText n.isError [' '] n.code.toList [' '])) ++ n.message := by
    rw [← String.toList_inj, toList_text]
    simp [bodyText]
  rw [whole]
  exact plain.file.append plain.message (by rwa [String.toList_ofList])

/-- the diagnostic that a notice is meant to be read as -/
def diagnostic (n : Notice) : Diagnostic :=
  ⟨⟨n.file, Nat.toDigits 10 n.line, Nat.toDigits 10 n.column⟩, n.isError, "TS" ++ n.code, n.message⟩

/-- a notice is read as it was meant -/
theorem ofLine?_text (plain : n.IsPlain) : Diagnostic.ofLine? n.text.toList = some n.diagnostic := by
  have gap : Text.dropBlanks (' ' :: bodyText n.isError [' '] n.code.toList (' ' :: n.message.toList)) =
      bodyText n.isError [' '] n.code.toList (' ' :: n.message.toList) := by
    unfold bodyText levelWord
    cases n.isError <;> rfl
  have blank : Text.isBlank ' ' = true := rfl
  have said : Text.dropBlanks (' ' :: n.message.toList) = n.message.toList := plain.message.dropBlanks_toList
  have code : String.ofList ('T' :: 'S' :: n.code.toList) = "TS" ++ n.code := by
    rw [← String.toList_inj]
    simp
  have body : diagnosticBody
      (Text.dropBlanks (' ' :: bodyText n.isError [' '] n.code.toList (' ' :: n.message.toList))) =
      some (n.isError, "TS" ++ n.code, n.message) := by
    rw [gap, diagnosticBody_bodyText n.isError (List.cons_ne_nil _ _) (by simp [blank]) plain.code
      (said.symm ▸ plain.message.toList_ne_nil), said, String.ofList_toList, plain.message.trimmed, code]
  unfold Diagnostic.ofLine?
  rw [(isTidy_text plain).trim_toList, toList_text, locate_append brackets_round plain.apart
    plain.file.toList_ne_nil (isDigits_toDigits _) (isDigits_toDigits _) body, String.ofList_toList]
  rfl

/-- what is read of a notice is the violation that it stands for, unless a number has too many digits -/
theorem violation_diagnostic_eq_ok {v : Violation} : n.diagnostic.violation root = .ok v ↔
    (n.line < 10 ^ digitLimit ∧ n.column < 10 ^ digitLimit) ∧ v = n.violation root := by
  unfold Diagnostic.violation diagnostic
  exact bind_integers_eq_ok

end Notice

/-! ### Whole output -/

variable {ls : List (OutputLine Notice)}

/-- of notices among lines that hold no diagnostic, each is read as it was meant -/
theorem compilerFindings_written (plain : ∀ n ∈ told ls, n.IsPlain)
    (silent : ∀ line ∈ others ls, (∀ c ∈ line.toList, Text.isLineEnd c = false) ∧ ¬HoldsDiagnostic line.toList) :
    compilerFindings root (written Notice.text ls) = (told ls).mapM fun n => n.diagnostic.violation root := by
  unfold compilerFindings
  rw [← gathered_singleton, gathered_filterMap, ← gathered_singleton]
  refine gathered_written rfl (fun n hn => ?_) fun line hline => ?_
  · exact ⟨(Notice.isTidy_text (plain n hn)).oneLine, onRead_of_some (Notice.ofLine?_text (plain n hn)) _⟩
  · exact ⟨(silent line hline).1, onRead_of_none (Diagnostic.ofLine?_eq_none_iff.mpr (silent line hline).2) _⟩

/-- **Notices of the compiler are read back.**  Output that has one notice on a line, among any lines that hold
no diagnostic, gives one violation for each notice, in their order, with its file, line, column, message, rule,
category and severity.  That goes for all notices whose lines and columns have no more digits than are read as
a number; with others the output cannot be read. -/
theorem notices_read_back (plain : ∀ n ∈ told ls, n.IsPlain)
    (silent : ∀ line ∈ others ls, (∀ c ∈ line.toList, Text.isLineEnd c = false) ∧ ¬HoldsDiagnostic line.toList)
    {vs : List Violation} :
    compilerFindings root (written Notice.text ls) = .ok vs ↔
      (∀ n ∈ told ls, n.line < 10 ^ digitLimit ∧ n.column < 10 ^ digitLimit) ∧
        vs = (told ls).map (Notice.violation root) := by
  rw [compilerFindings_written plain silent]
  exact mapM_eq_ok_map fun n v => Notice.violation_diagnostic_eq_ok

/-- output with a route group and a numbered file, in which a message quotes a whole notice -/
def quotedOutput : List (OutputLine Notice) :=
  [.telling ⟨"app/(shop)/page (2).tsx", 3, 14, true, "2345", "Argument (1,2): see a.ts(1,2): error TS1: m"⟩,
    .other "Found 2 errors (0 of them new).", .other "",
    .telling ⟨"lib/a.ts", 7, 1, false, "6133", "'x' is declared but never used."⟩]

theorem notices_read_back_quotedOutput : compilerFindings ⟨.root, ["p"]⟩ (written Notice.text quotedOutput) =
    .ok ((told quotedOutput).map (Notice.violation ⟨.root, ["p"]⟩)) := by
  have plain : ∀ n ∈ told quotedOutput, n.IsPlain := by decide +kernel
  have silent : ∀ line ∈ others quotedOutput, line.toList.any Text.isLineEnd = false ∧
      ¬HoldsDiagnostic line.toList := by decide +kernel
  refine (notices_read_back plain fun line hline => ?_).mpr ⟨by decide +kernel, rfl⟩
  obtain ⟨oneLine, silent⟩ := silent line hline
  exact ⟨by simpa using oneLine, silent⟩

/-- a plain notice whose line has too many digits is not read back, and of a line in which nothing is written as
a notice, as blanks are missing, something is read all the same -/
theorem notices_not_read_back :
    (∃ n : Notice, n.IsPlain ∧
      ∀ vs, compilerFindings ⟨.root, ["p"]⟩ (written Notice.text [.telling n]) ≠ .ok vs) ∧
    ∃ line : String, (∀ c ∈ line.toList, Text.isLineEnd c = false) ∧ (∀ n : Notice, ¬n.text.toList <:+: line.toList) ∧
      compilerFindings ⟨.root, ["p"]⟩ (written Notice.text [.other line]) ≠ .ok [] := by
  constructor
  · refine ⟨⟨"a.ts", 10 ^ digitLimit, 1, true, "1", "m"⟩, by decide +kernel, fun vs h => ?_⟩
    rw [compilerFindings_written (by decide +kernel) (fun _ none => absurd none List.not_mem_nil),
      mapM_eq_ok_map fun n v => Notice.violation_diagnostic_eq_ok] at h
    exact absurd (h.1 _ List.mem_cons_self).1 (lt_irrefl _)
  · refine ⟨"a.ts(1,2):error TS5:m", by simp [Text.isLineEnd], fun n within => ?_, ?_⟩
    · have spaced : [')', ':', ' '] <:+: n.text.toList := by
        rw [Notice.toList_text]
        exact ⟨n.file.toList ++ '(' :: (Nat.toDigits 10 n.line ++ ',' :: Nat.toDigits 10 n.column),
          bodyText n.isError [' '] n.code.toList (' ' :: n.message.toList), by simp [placeText]⟩
      exact absurd (spaced.trans within) (by decide +kernel)
    · have one : (compilerFindings ⟨.root, ["p"]⟩ "a.ts(1,2):error TS5:m").toOption.map List.length = some 1 := by
        decide +kernel
      intro h
      have none := congrArg (fun read => (Except.toOption read).map List.length) h
      cases one.symm.trans none

end LintLedger.Output
