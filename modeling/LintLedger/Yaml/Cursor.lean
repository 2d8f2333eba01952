/-!
# Places in a YAML text

The characters that are still to be read, with the line and column that they stand in.  Lines end at
a line feed, a carriage return, the two together, next line, and the Unicode line and paragraph
separators; a byte order mark takes no column.
-/

namespace LintLedger.Yaml

/-- a character that ends a line -/
def isBreak (c : Char) : Bool :=
  c = '\n' || c = '\r' || c = '\x85' || c = '\u2028' || c = '\u2029'

/-- a blank inside a line -/
def isSpace (c : Char) : Bool := c = ' ' || c = '\t'

/-- whether a character, if there is one, is a blank or ends the line -/
def isGap (c : Option Char) : Bool := c.all fun c => isSpace c || isBreak c

/-- whether a character, if there is one, is a plain blank or ends the line -/
def isPlainGap (c : Option Char) : Bool := c.all fun c => c = ' ' || isBreak c

/-- whether a character, if there is one, ends the line -/
def isLineEnd (c : Option Char) : Bool := c.all isBreak

/-- the characters that are still to be read, and where they stand -/
structure Cursor where
  rest : List Char
  index : Nat
  line : Nat
  column : Nat

namespace Cursor

/-- the place in front of a text -/
def start (cs : List Char) : Cursor := ⟨cs, 0, 0, 0⟩

/-- the next character -/
def peek (c : Cursor) : Option Char := c.rest.head?

/-- the character behind `n` others -/
def peekAt (c : Cursor) (n : Nat) : Option Char := c.rest[n]?

/-- the place behind the next character -/
def advance (c : Cursor) : Cursor :=
  match c.rest with
  | [] => c
  | d :: rest =>
    if isBreak d && !(d = '\r' && rest.head? = some '\n') then ⟨rest, c.index + 1, c.line + 1, 0⟩
    else ⟨rest, c.index + 1, c.line, if d = '\ufeff' then c.column else c.column + 1⟩

/-- the place behind the next `n` characters -/
def advanceBy : Nat → Cursor → Cursor
  | 0, c => c
  | n + 1, c => advanceBy n c.advance

/-- the characters up to the first without a property, and the place of that -/
def takeWhile (p : Char → Bool) (c : Cursor) : List Char × Cursor :=
  let taken := c.rest.takeWhile p
  (taken, advanceBy taken.length c)

/-- the place of the first character without a property -/
def skipWhile (p : Char → Bool) (c : Cursor) : Cursor := (c.takeWhile p).2

/-- the end of a line as it counts in a text, and the place behind it -/
def lineBreak? (c : Cursor) : Option (Char × Cursor) :=
  match c.rest with
  | '\r' :: '\n' :: _ => some ('\n', c.advance.advance)
  | d :: _ =>
    if d = '\u2028' || d = '\u2029' then some (d, c.advance)
    else if isBreak d then some ('\n', c.advance)
    else none
  | [] => none

/-- whether three dashes or dots stand here that separate documents -/
def atSeparator (c : Cursor) : Bool :=
  (c.rest.take 3 = ['-', '-', '-'] || c.rest.take 3 = ['.', '.', '.']) && isGap (c.peekAt 3)

/-- the place behind blanks, up to a column -/
def skipIndent (limit : Nat) : Nat → Cursor → Cursor
  | 0, c => c
  | fuel + 1, c =>
    if c.column < limit && c.peek = some ' ' then skipIndent limit fuel c.advance else c

end Cursor

end LintLedger.Yaml
