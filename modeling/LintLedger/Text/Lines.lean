/-!
# Lines

Cutting a text at its line boundaries: line feed, carriage return, the two together, vertical tab,
form feed, the separators `U+001C`–`U+001E`, next line, and the Unicode line and paragraph
separators.  A boundary ends a line, so a text that ends in one has no empty last line.
-/

namespace LintLedger.Text

/-- a character that ends a line -/
def isLineEnd (c : Char) : Bool :=
  let n := c.toNat
  (10 ≤ n && n ≤ 13) || (28 ≤ n && n ≤ 30) || n == 0x85 || n == 0x2028 || n == 0x2029

/-- the lines of a run of characters, `current` being the line read so far, in reverse -/
def linesFrom (current : List Char) : List Char → List (List Char)
  | [] => if current.isEmpty then [] else [current.reverse]
  | '\r' :: '\n' :: rest => current.reverse :: linesFrom [] rest
  | c :: rest =>
    if isLineEnd c then current.reverse :: linesFrom [] rest else linesFrom (c :: current) rest

/-- the lines of a run of characters, without their ends -/
def lines (cs : List Char) : List (List Char) := linesFrom [] cs

/-- every way of ending a line that a terminal knows, written as a line feed -/
def unifyNewlines : List Char → List Char
  | [] => []
  | '\r' :: '\n' :: rest => '\n' :: unifyNewlines rest
  | c :: rest => (if c = '\r' then '\n' else c) :: unifyNewlines rest

end LintLedger.Text
