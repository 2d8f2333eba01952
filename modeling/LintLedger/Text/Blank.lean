/-!
# Blank characters

Which characters count as white space, and what is left of a text once the blanks at its two ends
are dropped.  The class is the white space of the Unicode database together with the four
separators `U+001C`–`U+001F`; a zero width space or a byte order mark is not blank.
-/

namespace LintLedger.Text

/-- a character that stripping removes -/
def isBlank (c : Char) : Bool :=
  let n := c.toNat
  (9 ≤ n && n ≤ 13) || (28 ≤ n && n ≤ 32) || n == 0x85 || n == 0xa0 || n == 0x1680 ||
    (0x2000 ≤ n && n ≤ 0x200a) || n == 0x2028 || n == 0x2029 || n == 0x202f || n == 0x205f ||
    n == 0x3000

/-- the characters from the first that is not blank -/
def dropBlanks (cs : List Char) : List Char := cs.dropWhile isBlank

/-- the characters up to the last that is not blank -/
def dropBlanksEnd (cs : List Char) : List Char := (cs.reverse.dropWhile isBlank).reverse

/-- a run of characters without the blanks at its two ends -/
def trim (cs : List Char) : List Char := dropBlanksEnd (dropBlanks cs)

/-- a text without the blanks at its two ends -/
def strip (s : String) : String := String.ofList (trim s.toList)

/-- a text that holds nothing but blanks -/
def isBlankText (s : String) : Bool := s.toList.all isBlank

/-- nothing is taken away in front of a character that is not blank -/
theorem dropBlanks_cons {c : Char} {cs : List Char} (h : isBlank c = false) :
    dropBlanks (c :: cs) = c :: cs := by
  simp [dropBlanks, h]

end LintLedger.Text
