import LintLedger.Text.Blank
import LintLedger.Text.Digit

/-!
# Places in tool output

Tools name a place as a file, followed by line and column between two brackets and a colon.  A file
may itself hold brackets, so the first place at which the whole rest of the line can be read is the
one that counts.
-/

namespace LintLedger.Output

/-- a place as it is written: the digits of line and column are kept -/
structure Location where
  file : String
  line : List Char
  column : List Char
deriving Repr, DecidableEq

/-- a digit run at the front, which must not be empty, and what follows it -/
def digitsThen (cs : List Char) : Option (List Char × List Char) :=
  let ds := cs.takeWhile Text.isDigit
  if ds.isEmpty then none else some (ds, cs.dropWhile Text.isDigit)

/-- what follows a character that has to stand at the front -/
def after (c : Char) : List Char → Option (List Char)
  | [] => none
  | d :: rest => if d = c then some rest else none

/-- what follows a word that has to stand at the front -/
def afterWord : List Char → List Char → Option (List Char)
  | [], cs => some cs
  | c :: word, cs => (after c cs).bind (afterWord word)

/-- line and column between brackets with the colon, and what follows the blanks behind it -/
def coordinates (left right : Char) (cs : List Char) :
    Option (List Char × List Char × List Char) := do
  let cs ← after left cs
  let (line, cs) ← digitsThen cs
  let cs ← after ',' cs
  let (column, cs) ← digitsThen cs
  let cs ← after right cs
  let cs ← after ':' cs
  return (line, column, Text.dropBlanks cs)

/-- a line read as a place and what `body` makes of the rest, `file` being the characters already
passed, in reverse -/
def located {α : Type} (left right : Char) (body : List Char → Option α) :
    List Char → List Char → Option (Location × α)
  | _, [] => none
  | file, c :: rest =>
    let here : Option (Location × α) :=
      if file.isEmpty then none
      else do
        let (line, column, cs) ← coordinates left right (c :: rest)
        let a ← body cs
        return (⟨String.ofList file.reverse, line, column⟩, a)
    match here with
    | some found => some found
    | none => located left right body (c :: file) rest

/-- a line read as a place and what `body` makes of the rest -/
def locate {α : Type} (left right : Char) (body : List Char → Option α) (cs : List Char) :
    Option (Location × α) :=
  located left right body [] cs

end LintLedger.Output
