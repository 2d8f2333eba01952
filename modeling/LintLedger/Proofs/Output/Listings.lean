import LintLedger.Output.Exports
import LintLedger.Proofs.Output.Lines
import LintLedger.Proofs.Output.Location
import LintLedger.Proofs.Output.Wording
import LintLedger.Proofs.Text.Pieces
import Mathlib

/-!
# Unused names that are read back

The detector of unused exports writes a place and the names behind it on one line, the names with commas in
between (`Listing.text`).  Names that are joined so are cut apart again (`map_strip_pieces`); a line gives names
just if it holds a listing, and its words do not count modules (`exists_names_iff`).  So output that has one
listing on a line, among lines that hold none, is read back name by name (`listings_read_back`), even if the name
of a file holds brackets, unless a number has more digits than can be read.
-/

namespace LintLedger

open Outcome

/-! ### Cutting at a character -/

namespace Text

variable {blanks : List Char}

theorem strip_blanks_append {s : String} (tidy : IsTidy s) (blank : ∀ c ∈ blanks, isBlank c = true) :
    strip (String.ofList (blanks ++ s.toList)) = s := by
  have front : dropBlanks (blanks ++ s.toList) = dropBlanks s.toList := List.dropWhile_append_of_pos blank
  unfold strip trim
  rw [String.toList_ofList, front]
  exact tidy.trimmed

/-- tidy texts without commas, joined by commas with blanks behind them, are cut apart again -/
theorem map_strip_pieces {names : List String} (some : names ≠ []) (tidy : ∀ name ∈ names, IsTidy name)
    (plain : ∀ name ∈ names, ',' ∉ name.toList) (blank : ∀ c ∈ blanks, isBlank c = true) :
    (pieces ',' (blanks ++ (String.intercalate ", " names).toList)).map (fun name => strip (String.ofList name)) =
      names := by
  have comma : ∀ {blanks : List Char}, (∀ c ∈ blanks, isBlank c = true) → ',' ∉ blanks := fun blank mem =>
    absurd (blank ',' mem) (by decide)
  induction names generalizing blanks with
  | nil => exact absurd rfl some
  | cons name names ih =>
    have own : ',' ∉ blanks ++ name.toList := by
      rw [List.mem_append, not_or]
      exact ⟨comma blank, plain name List.mem_cons_self⟩
    have first := strip_blanks_append (tidy name List.mem_cons_self) blank
    cases names with
    | nil =>
      rw [String.intercalate_singleton, pieces_of_not_mem own, List.map_singleton, first]
    | cons next names =>
      have later := @ih [' '] (List.cons_ne_nil next names) (fun n hn => tidy n (List.mem_cons_of_mem name hn))
        (fun n hn => plain n (List.mem_cons_of_mem name hn)) (by simp [isBlank])
      have joined : blanks ++ (String.intercalate ", " (name :: next :: names)).toList =
          (blanks ++ name.toList) ++ ',' :: ([' '] ++ (String.intercalate ", " (next :: names)).toList) := by
        simp [String.intercalate_cons_cons]
      rw [joined, pieces_append own, List.map_cons, first, later]

/-- tidy texts that are joined make one -/
theorem isTidy_intercalate {names : List String} (some : names ≠ []) (tidy : ∀ name ∈ names, IsTidy name) :
    IsTidy (String.intercalate ", " names) := by
  induction names with
  | nil => exact absurd rfl some
  | cons name names ih =>
    cases names with
    | nil => exact tidy name List.mem_cons_self
    | cons next names =>
      have later := ih (List.cons_ne_nil next names) fun n hn => tidy n (List.mem_cons_of_mem name hn)
      rw [String.intercalate_cons_cons]
      exact (tidy name List.mem_cons_self).append later (by simp [isLineEnd])

end Text

namespace Output

variable {root : Path} {cs rest : List Char} {names : List String}

/-! ### Reading a listing -/

theorem brackets_square : Brackets '[' ']' := ⟨by decide, by decide, by decide⟩

theorem holds_iff {word : List Char} : holds word cs = true ↔ word <:+: cs := by
  induction cs with
  | nil => simp [holds]
  | cons c cs ih => rw [holds, Bool.or_eq_true, List.isPrefixOf_iff_prefix, ih, List.infix_cons_iff]

theorem strip_ofList_ne_empty_iff : Text.strip (String.ofList cs) ≠ "" ↔ ∃ c ∈ cs, Text.isBlank c = false := by
  unfold Text.strip
  rw [String.toList_ofList, ← Text.trim_ne_nil_iff]
  simp

/-- a name is read just if anything but blanks and commas stands there -/
theorem ne_nil_of_exportNames_iff (h : exportNames cs = some names) :
    names ≠ [] ↔ ∃ c ∈ cs, Text.isBlank c = false ∧ c ≠ ',' := by
  unfold exportNames at h
  split at h
  · cases h
  · cases h
    constructor
    · intro filled
      obtain ⟨name, hname⟩ := List.exists_mem_of_ne_nil _ filled
      obtain ⟨hname, some⟩ := List.mem_filter.mp hname
      obtain ⟨piece, hpiece, rfl⟩ := List.mem_map.mp hname
      obtain ⟨c, hc, filled⟩ := strip_ofList_ne_empty_iff.mp (bne_iff_ne.mp some)
      obtain ⟨mem, other⟩ := Text.exists_mem_pieces_iff.mp ⟨piece, hpiece, hc⟩
      exact ⟨c, mem, filled, other⟩
    · rintro ⟨c, mem, filled, other⟩
      obtain ⟨piece, hpiece, hc⟩ := Text.exists_mem_pieces_iff.mpr ⟨mem, other⟩
      refine List.ne_nil_of_mem (List.mem_filter.mpr ⟨List.mem_map.mpr ⟨piece, hpiece, rfl⟩, ?_⟩)
      exact bne_iff_ne.mpr (strip_ofList_ne_empty_iff.mpr ⟨c, hc, filled⟩)

theorem exists_exportNames (some : cs ≠ []) : ∃ names, exportNames cs = .some names := by
  unfold exportNames
  rw [if_neg (by simpa using some)]
  exact ⟨_, rfl⟩

/-- the words that count the modules stand in a line just if they stand in it without the blanks at its ends -/
theorem holds_trim : holds countingWords (Text.trim cs) = true ↔ countingWords <:+: cs := by
  have words : countingWords = 'm' :: ("odules with unused export".toList ++ ['s']) := by decide
  rw [holds_iff]
  constructor
  · intro h
    obtain ⟨left, right, whole⟩ := Text.exists_trim_eq cs
    refine h.trans ⟨left, right, whole.symm⟩
  · intro h
    rw [words] at h ⊢
    exact Text.isInfix_trim (by decide) (by decide) h

/-- whether a line holds a listing, with a file in front of it and a name behind it, whatever blanks stand there,
and does not count modules -/
def HoldsListing (line : List Char) : Prop :=
  (∃ file row column names, line = file ++ (placeText '[' ']' row column ++ names) ∧
    (∃ c ∈ file, Text.isBlank c = false) ∧ IsDigits row ∧ IsDigits column ∧
    ∃ c ∈ names, Text.isBlank c = false ∧ c ≠ ',') ∧ ¬countingWords <:+: line

theorem ExportEntry.ofLine?_eq_some_iff {e : ExportEntry} : ExportEntry.ofLine? cs = some e ↔
    ¬countingWords <:+: cs ∧ ∃ p, locate '[' ']' exportNames (Text.trim cs) = some p ∧ ⟨p.1, p.2⟩ = e := by
  unfold ExportEntry.ofLine?
  dsimp only
  rw [← holds_trim]
  split
  · rename_i counts
    exact iff_of_false nofun fun h => h.1 counts
  · rename_i other
    rw [Option.map_eq_some_iff]
    exact (and_iff_right other).symm

/-- names are read off a line just if it holds a listing -/
theorem exists_names_iff : (∃ e, ExportEntry.ofLine? cs = some e ∧ e.names ≠ []) ↔ HoldsListing cs := by
  constructor
  · rintro ⟨e, read, some⟩
    obtain ⟨other, p, placed, rfl⟩ := ExportEntry.ofLine?_eq_some_iff.mp read
    obtain ⟨front, more, whole, named, -, row, column, body⟩ := exists_of_located placed
    obtain ⟨c, hc, filled, noComma⟩ := (ne_nil_of_exportNames_iff body).mp some
    obtain ⟨left, right, cut⟩ := Text.exists_trim_eq cs
    have nonempty : Text.trim cs ≠ [] := by simp [whole, placeText]
    obtain ⟨d, rest, first, filled'⟩ := Text.exists_head_trim nonempty
    refine ⟨⟨left ++ front, p.1.line, p.1.column, more ++ right, ?_, ⟨d, ?_, filled'⟩, row, column, c, ?_, filled,
      noComma⟩, other⟩
    · conv_lhs => rw [cut, whole]
      simp
    · obtain ⟨d, front, rfl⟩ := List.exists_cons_of_ne_nil named
      rw [first, List.cons_append, List.cons.injEq] at whole
      simp [whole.1]
    · exact List.mem_append_left _ ((List.dropWhile_suffix Text.isBlank).subset hc)
  · rintro ⟨⟨file, row, column, names, rfl, file', row', column', c, hc, filled, noComma⟩, other⟩
    have line := Text.trim_append (placeText '[' ']' row column) file' ⟨c, hc, filled⟩
    rw [List.append_assoc, List.append_assoc] at line
    have kept := Text.mem_dropBlanksEnd hc filled
    obtain ⟨read, body⟩ := exists_exportNames (List.ne_nil_of_mem (Text.mem_dropBlanks kept filled))
    obtain ⟨p, rest, found, behind, body'⟩ :=
      exists_locate brackets_square (Text.dropBlanks_ne_nil_iff.mpr file') row' column' body
    rw [← line] at found
    refine ⟨⟨p.1, p.2⟩, ExportEntry.ofLine?_eq_some_iff.mpr ⟨other, p, found, rfl⟩,
      (ne_nil_of_exportNames_iff body').mpr ?_⟩
    exact ⟨c, Text.mem_dropBlanks (behind.subset kept) filled, filled, noComma⟩

instance : DecidablePred HoldsListing := fun cs =>
  decidable_of_iff ((ExportEntry.ofLine? cs).any (fun e => !e.names.isEmpty) = true) (by
    rw [← exists_names_iff, Option.any_eq_true]
    simp)

/-! ### Listings -/

/-- one listing of the detector: a place and the names behind it, of which there is at least one -/
structure Listing where
  file : String
  line : ℕ
  column : ℕ
  names : List String
  some : names ≠ []

namespace Listing

/-- a listing as the detector writes it -/
def text (l : Listing) : String :=
  l.file ++ "[" ++ Decimal.digitText l.line ++ "," ++ Decimal.digitText l.column ++ "]: " ++
    String.intercalate ", " l.names

/-- whether file and names are lines without blanks at the ends, no name holds a comma, no place stands in the
name of the file, and the line does not seem to count modules -/
structure IsPlain (l : Listing) : Prop where
  file : Text.IsTidy l.file
  apart : ¬HoldsPlace '[' ']' l.file.toList
  names : ∀ name ∈ l.names, Text.IsTidy name
  whole : ∀ name ∈ l.names, ',' ∉ name.toList
  listing : ¬countingWords <:+: l.text.toList

instance (l : Listing) : Decidable l.IsPlain :=
  have : Decidable (HoldsPlace '[' ']' l.file.toList) := decidable_of_iff' _ (holdsPlace_iff brackets_square)
  decidable_of_iff (Text.IsTidy l.file ∧ ¬HoldsPlace '[' ']' l.file.toList ∧ (∀ name ∈ l.names, Text.IsTidy name) ∧
      (∀ name ∈ l.names, ',' ∉ name.toList) ∧ ¬countingWords <:+: l.text.toList)
    ⟨fun h => ⟨h.1, h.2.1, h.2.2.1, h.2.2.2.1, h.2.2.2.2⟩, fun h => ⟨h.file, h.apart, h.names, h.whole, h.listing⟩⟩

/-- the violation that a name of a listing stands for -/
def violation (root : Path) (l : Listing) (name : String) : Violation where
  file := .text (root.textFrom l.file)
  line := .int l.line
  column := .int l.column
  code := .text name
  message := .text (unusedWording name)
  rule := .text "unused-export"
  category := .known .unusedExport
  severity := .known .info
  source := .known .custom
  fix := Value.ofText? (Catalog.fixFor? .unusedExport)

/-- the violations that a listing stands for, one for each name -/
def violations (root : Path) (l : Listing) : List Violation := l.names.map (l.violation root)

variable {l : Listing}

theorem toList_text (l : Listing) : l.text.toList =
    l.file.toList ++ (placeText '[' ']' (Nat.toDigits 10 l.line) (Nat.toDigits 10 l.column) ++
      (' ' :: (String.intercalate ", " l.names).toList)) := by
  unfold text placeText Decimal.digitText
  simp

theorem isTidy_text (plain : l.IsPlain) : Text.IsTidy l.text := by
  have between : ∀ c ∈ placeText '[' ']' (Nat.toDigits 10 l.line) (Nat.toDigits 10 l.column) ++ [' '],
      Text.isLineEnd c = false := by
    rw [List.forall_mem_append, List.forall_mem_singleton]
    exact ⟨isLineEnd_placeText (by decide) (by decide) (isDigits_toDigits _) (isDigits_toDigits _), by decide⟩
  have whole : l.text = l.file ++
      String.ofList (placeText '[' ']' (Nat.toDigits 10 l.line) (Nat.toDigits 10 l.column) ++
      [' ']) ++ String.intercalate ", " l.names := by
    rw [← String.toList_inj, toList_text]
    simp
  rw [whole]
  exact plain.file.append (Text.isTidy_intercalate l.some plain.names) (by rwa [String.toList_ofList])

/-- the entry that a listing is meant to be read as -/
def entry (l : Listing) : ExportEntry := ⟨⟨l.file, Nat.toDigits 10 l.line, Nat.toDigits 10 l.column⟩, l.names⟩

/-- a listing is read as it was meant -/
theorem ofLine?_text (plain : l.IsPlain) : ExportEntry.ofLine? l.text.toList = .some l.entry := by
  have joined := Text.isTidy_intercalate l.some plain.names
  have gap : Text.dropBlanks (' ' :: (String.intercalate ", " l.names).toList) =
      (String.intercalate ", " l.names).toList := joined.dropBlanks_toList
  have names : exportNames (Text.dropBlanks (' ' :: (String.intercalate ", " l.names).toList)) = .some l.names := by
    have cut : (Text.pieces ',' ([] ++ (String.intercalate ", " l.names).toList)).map (fun name =>
        Text.strip (String.ofList name)) = l.names := Text.map_strip_pieces l.some plain.names plain.whole nofun
    rw [List.nil_append] at cut
    rw [gap]
    unfold exportNames
    rw [if_neg (mt List.isEmpty_iff.mp joined.toList_ne_nil), cut, List.filter_eq_self.mpr]
    exact fun name hname => bne_iff_ne.mpr (plain.names name hname).some
  refine ExportEntry.ofLine?_eq_some_iff.mpr ⟨plain.listing, (l.entry.location, l.names), ?_, rfl⟩
  rw [(isTidy_text plain).trim_toList, toList_text, locate_append brackets_square plain.apart plain.file.toList_ne_nil
    (isDigits_toDigits _) (isDigits_toDigits _) names, String.ofList_toList]
  rfl

/-- what is read of a listing are the violations that it stands for, unless a number has too many digits -/
theorem violations_entry_eq_ok {vs : List Violation} : l.entry.violations root = .ok vs ↔
    (l.line < 10 ^ digitLimit ∧ l.column < 10 ^ digitLimit) ∧ vs = l.violations root := by
  have one : ∀ name v, ExportEntry.violation root l.entry.location name = .ok v ↔
      (l.line < 10 ^ digitLimit ∧ l.column < 10 ^ digitLimit) ∧ v = l.violation root name := by
    intro name v
    unfold ExportEntry.violation entry
    exact bind_integers_eq_ok
  obtain ⟨name, hname⟩ := List.exists_mem_of_ne_nil _ l.some
  exact (mapM_eq_ok_map one).trans (and_congr_left' ⟨fun h => h name hname, fun h _ _ => h⟩)

end Listing

/-! ### Whole output -/

variable {ls : List (OutputLine Listing)}

/-- of listings among lines that hold none, each is read as it was meant -/
theorem exportFindings_written (plain : ∀ l ∈ told ls, l.IsPlain)
    (silent : ∀ line ∈ others ls, (∀ c ∈ line.toList, Text.isLineEnd c = false) ∧ ¬HoldsListing line.toList) :
    exportFindings root (written Listing.text ls) = gathered (fun l => l.entry.violations root) (told ls) := by
  have reads := gathered_filterMap (ExportEntry.violations root) ExportEntry.ofLine?
    (Text.lines (written Listing.text ls).toList)
  refine reads.trans (gathered_written rfl (fun l hl => ?_) fun line hline => ?_)
  · exact ⟨(Listing.isTidy_text (plain l hl)).oneLine, onRead_of_some (Listing.ofLine?_text (plain l hl)) _⟩
  · refine ⟨(silent line hline).1, ?_⟩
    cases read : ExportEntry.ofLine? line.toList with
    | none => exact onRead_of_none read _
    | some e =>
      have none : e.names = [] := by
        by_contra some
        exact (silent line hline).2 (exists_names_iff.mp ⟨e, read, some⟩)
      rw [onRead_of_some read]
      unfold ExportEntry.violations
      rw [none]
      rfl

/-- **Listings of unused names are read back.**  Output that has one listing on a line, among any lines that hold
none, gives one violation for each name, listing by listing and in their order, with the file, the line and the
column of its listing.  That goes for all listings whose lines and columns have no more digits than are read as a
number; with others the output cannot be read. -/
theorem listings_read_back (plain : ∀ l ∈ told ls, l.IsPlain)
    (silent : ∀ line ∈ others ls, (∀ c ∈ line.toList, Text.isLineEnd c = false) ∧ ¬HoldsListing line.toList)
    {vs : List Violation} :
    exportFindings root (written Listing.text ls) = .ok vs ↔
      (∀ l ∈ told ls, l.line < 10 ^ digitLimit ∧ l.column < 10 ^ digitLimit) ∧
        vs = (told ls).flatMap (Listing.violations root) := by
  rw [exportFindings_written plain silent]
  unfold gathered
  rw [map_eq_ok]
  constructor
  · rintro ⟨groups, read, rfl⟩
    obtain ⟨short, rfl⟩ := (mapM_eq_ok_map fun l vs => Listing.violations_entry_eq_ok).mp read
    exact ⟨short, rfl⟩
  · rintro ⟨short, rfl⟩
    exact ⟨_, (mapM_eq_ok_map fun l vs => Listing.violations_entry_eq_ok).mpr ⟨short, rfl⟩, rfl⟩

/-- output with a folder of a dynamic route, names that stand for nothing, and the line that counts the modules -/
def routedOutput : List (OutputLine Listing) :=
  [.other "2 modules with unused exports", .telling ⟨"app/[id]/[...slug].ts", 3, 14, ["Props", "get Data"], by decide⟩,
    .other "lib/b.ts[1,2]: , ,", .telling ⟨"lib/a.ts", 7, 1, ["x"], by decide⟩]

theorem listings_read_back_routedOutput : exportFindings ⟨.root, ["p"]⟩ (written Listing.text routedOutput) =
    .ok ((told routedOutput).flatMap (Listing.violations ⟨.root, ["p"]⟩)) := by
  have plain : ∀ l ∈ told routedOutput, l.IsPlain := by decide +kernel
  have silent : ∀ line ∈ others routedOutput, line.toList.any Text.isLineEnd = false ∧
      ¬HoldsListing line.toList := by decide +kernel
  refine (listings_read_back plain fun line hline => ?_).mpr ⟨by decide +kernel, rfl⟩
  obtain ⟨oneLine, silent⟩ := silent line hline
  exact ⟨by simpa using oneLine, silent⟩

/-- a plain listing whose line has too many digits is not read back, and of a line in which nothing is written as
a listing, as a blank is missing, something is read all the same -/
theorem listings_not_read_back :
    (∃ l : Listing, l.IsPlain ∧
      ∀ vs, exportFindings ⟨.root, ["p"]⟩ (written Listing.text [.telling l]) ≠ .ok vs) ∧
    ∃ line : String, (∀ c ∈ line.toList, Text.isLineEnd c = false) ∧
      (∀ l : Listing, ¬l.text.toList <:+: line.toList) ∧
      exportFindings ⟨.root, ["p"]⟩ (written Listing.text [.other line]) ≠ .ok [] := by
  constructor
  · have plain : ∀ n, Listing.IsPlain ⟨"a.ts", n, 1, ["x"], by decide⟩ := by
      intro n
      have file : Text.IsTidy "a.ts" := by decide +kernel
      have apart : ¬HoldsPlace '[' ']' "a.ts".toList := mt (holdsPlace_iff brackets_square).mp (by decide +kernel)
      have name : Text.IsTidy "x" := by decide +kernel
      refine ⟨file, apart, List.forall_mem_singleton.mpr name, List.forall_mem_singleton.mpr (by decide),
        fun counts => ?_⟩
      have letter := counts.subset (show 'm' ∈ countingWords by decide)
      rw [Listing.toList_text] at letter
      have digit : 'm' ∈ Nat.toDigits 10 n ∨ 'm' ∈ Nat.toDigits 10 1 := by simpa [placeText] using letter
      rcases digit with digit | digit
      · exact absurd ((isDigits_toDigits n).digits 'm' digit) (by decide)
      · exact absurd ((isDigits_toDigits 1).digits 'm' digit) (by decide)
    refine ⟨⟨"a.ts", 10 ^ digitLimit, 1, ["x"], by decide⟩, plain _, fun vs h => ?_⟩
    rw [exportFindings_written (by simpa [told, OutputLine.told?] using plain _)
      (fun _ none => absurd none List.not_mem_nil)] at h
    obtain ⟨groups, read, -⟩ := map_eq_ok.mp h
    obtain ⟨short, -⟩ := (mapM_eq_ok_map fun l vs => Listing.violations_entry_eq_ok).mp read
    exact absurd (short _ List.mem_cons_self).1 (lt_irrefl _)
  · refine ⟨"a.ts[1,2]:x", by simp [Text.isLineEnd], fun l within => ?_, ?_⟩
    · have spaced : [']', ':', ' '] <:+: l.text.toList := by
        rw [Listing.toList_text]
        exact ⟨l.file.toList ++ '[' :: (Nat.toDigits 10 l.line ++ ',' :: Nat.toDigits 10 l.column),
          (String.intercalate ", " l.names).toList, by simp [placeText]⟩
      exact absurd (spaced.trans within) (by decide +kernel)
    · have one : (exportFindings ⟨.root, ["p"]⟩ "a.ts[1,2]:x").toOption.map List.length = .some 1 := by
        decide +kernel
      intro h
      have none := congrArg (fun read => (Except.toOption read).map List.length) h
      cases one.symm.trans none

end Output

end LintLedger
