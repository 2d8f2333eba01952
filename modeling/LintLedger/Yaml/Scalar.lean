import LintLedger.Json.Reader
import LintLedger.Yaml.Cursor

/-!
# Scalars in a YAML text

The three ways to write a text: between quotes, as a block below an indicator, and plain.  Lines are
folded into one, an empty line staying as a line feed; a block that is literal keeps its lines.
-/

namespace LintLedger.Yaml

/-! ### Between quotes -/

/-- what a folded line break leaves: nothing of a single one but a blank -/
def foldBreak (first : Char) (breaks : List Char) : List Char :=
  if first ≠ '\n' then first :: breaks
  else if breaks.isEmpty then [' ']
  else breaks

/-- the empty lines between two lines of a quoted text -/
def quotedBreaks : Nat → Cursor → Option (List Char × Cursor)
  | 0, _ => none
  | fuel + 1, c =>
    if c.atSeparator then none
    else
      let c := c.skipWhile isSpace
      match c.lineBreak? with
      | some (b, c) => (quotedBreaks fuel c).map fun p => (b :: p.1, p.2)
      | none => some ([], c)

/-- the character that an escape stands for -/
def escapeOf? (c : Char) : Option Char :=
  [
    ('0', '\x00'), ('a', '\x07'), ('b', '\x08'), ('t', '\t'), ('\t', '\t'), ('n', '\n'),
    ('v', '\x0b'), ('f', '\x0c'), ('r', '\r'), ('e', '\x1b'), (' ', ' '), ('"', '"'),
    ('\\', '\\'), ('/', '/'), ('N', '\x85'), ('_', '\u00a0'), ('L', '\u2028'),
    ('P', '\u2029')].lookup c

/-- the number of digits of an escape that gives a code point -/
def escapeLength? (c : Char) : Option Nat := [('x', 2), ('u', 4), ('U', 8)].lookup c

/-- the code point that digits in base sixteen give -/
def codePoint? (ds : List Char) : Option Nat :=
  ds.foldlM (fun acc d => (Json.hexValue? d).map fun h => acc * 16 + h) 0

/-- the character that an escape with digits stands for, and the place behind it -/
def coded? (length : Nat) (c : Cursor) : Option (Char × Cursor) := do
  let ds := c.rest.take length
  if ds.length < length then none
  else
    let n ← codePoint? ds
    if n ≤ 0x10ffff then some (Json.charOf n, c.advanceBy length) else none

/-- a character of a quoted text that stands for itself wherever it stands -/
def isOrdinary (c : Char) : Bool :=
  !(c = '\'' || c = '"' || c = '\\' || isSpace c || isBreak c)

/-- the characters of a quoted text up to the next blank, line end or closing quote -/
def quotedWord (double : Bool) : Nat → Cursor → Option (List Char × Cursor)
  | 0, _ => none
  | fuel + 1, c =>
    let (word, c) := c.takeWhile isOrdinary
    let goOn (more : List Char) (c : Cursor) : Option (List Char × Cursor) :=
      (quotedWord double fuel c).map fun p => (word ++ more ++ p.1, p.2)
    match c.peek with
    | some '\'' =>
      if double then goOn ['\''] c.advance
      else if c.peekAt 1 = some '\'' then goOn ['\''] (c.advanceBy 2)
      else some (word, c)
    | some '"' => if double then some (word, c) else goOn ['"'] c.advance
    | some '\\' =>
      if !double then goOn ['\\'] c.advance
      else
        let c := c.advance
        match c.peek with
        | none => none
        | some e =>
          match escapeOf? e, escapeLength? e with
          | some x, _ => goOn [x] c.advance
          | none, some n => (coded? n c.advance).bind fun p => goOn [p.1] p.2
          | none, none =>
            match c.lineBreak? with
            | some (_, c) => (quotedBreaks (fuel + 1) c).bind fun p => goOn p.1 p.2
            | none => none
    | _ => some (word, c)

/-- the blanks of a quoted text, folded where they hold line ends -/
def quotedGap (c : Cursor) : Option (List Char × Cursor) :=
  let (blanks, c) := c.takeWhile isSpace
  match c.peek with
  | none => none
  | some _ =>
    match c.lineBreak? with
    | some (b, c) =>
      (quotedBreaks (c.rest.length + 1) c).map fun p => (foldBreak b p.1, p.2)
    | none => some (blanks, c)

/-- a quoted text up to and with its closing quote -/
def quotedTail (double : Bool) : Nat → Cursor → Option (List Char × Cursor)
  | 0, _ => none
  | fuel + 1, c => do
    let (word, c) ← quotedWord double (c.rest.length + 1) c
    if c.peek = some (if double then '"' else '\'') then return (word, c.advance)
    let (gap, c) ← quotedGap c
    let (more, c) ← quotedTail double fuel c
    return (word ++ gap ++ more, c)

/-- a quoted text whose opening quote comes next -/
def quoted (double : Bool) (c : Cursor) : Option (List Char × Cursor) :=
  quotedTail double (c.rest.length + 1) c.advance

/-! ### Blocks -/

/-- what becomes of the line ends behind a block -/
inductive Chomping where
  | clip | strip | keep
deriving DecidableEq

/-- the sign that says what becomes of the line ends behind a block -/
def chompingOf? : Option Char → Option Chomping
  | some '+' => some .keep
  | some '-' => some .strip
  | _ => none

/-- the digit that says how far a block is indented -/
def incrementOf? : Option Char → Option Nat
  | some d => if Json.isPlainDigit d then some (d.toNat - 48) else none
  | none => none

/-- the signs behind the indicator of a block, in either order -/
def blockSigns (c : Cursor) : Option (Chomping × Option Nat × Cursor) :=
  let found : Chomping × Option Nat × Cursor :=
    match chompingOf? c.peek with
    | some chomping =>
      match incrementOf? c.advance.peek with
      | some n => (chomping, some n, c.advanceBy 2)
      | none => (chomping, none, c.advance)
    | none =>
      match incrementOf? c.peek with
      | some n =>
        match chompingOf? c.advance.peek with
        | some chomping => (chomping, some n, c.advanceBy 2)
        | none => (.clip, some n, c.advance)
      | none => (.clip, none, c)
  if found.2.1 = some 0 || !isPlainGap found.2.2.peek then none else some found

/-- the place behind the rest of a line, which may only hold blanks and a comment -/
def restOfLine? (c : Cursor) : Option Cursor :=
  let c := c.skipWhile (· = ' ')
  let c := if c.peek = some '#' then c.skipWhile (fun d => !isBreak d) else c
  if isLineEnd c.peek then
    some (match c.lineBreak? with
      | some (_, c) => c
      | none => c)
  else none

/-- the line ends in front of a block, and the widest indentation among its empty lines -/
def blockIndent : Nat → Nat → Cursor → List Char × Nat × Cursor
  | 0, widest, c => ([], widest, c)
  | fuel + 1, widest, c =>
    if c.peek = some ' ' then
      let c := c.advance
      blockIndent fuel (max widest c.column) c
    else
      match c.lineBreak? with
      | some (b, c) =>
        let (breaks, widest, c) := blockIndent fuel widest c
        (b :: breaks, widest, c)
      | none => ([], widest, c)

/-- the empty lines inside a block -/
def blockBreaks (indent : Nat) : Nat → Cursor → List Char × Cursor
  | 0, c => ([], c)
  | fuel + 1, c =>
    let c := c.skipIndent indent (c.rest.length + 1)
    match c.lineBreak? with
    | some (b, c) =>
      let (breaks, c) := blockBreaks indent fuel c
      (b :: breaks, c)
    | none => ([], c)

/-- the lines of a block from its first, with the line ends that stand in front and those that are
left behind -/
def blockLines (folded : Bool) (indent : Nat) : Nat → List Char → Cursor →
    List Char × List Char × List Char × Cursor
  | 0, breaks, c => ([], [], breaks, c)
  | fuel + 1, breaks, c =>
    if c.column = indent && c.peek.isSome then
      let leading := !c.peek.any isSpace
      let (line, c) := c.takeWhile fun d => !isBreak d
      let (last, c) := match c.lineBreak? with
        | some (b, c) => ([b], c)
        | none => ([], c)
      let (after, c) := blockBreaks indent (c.rest.length + 1) c
      if c.column = indent && c.peek.isSome then
        let fold := folded && last = ['\n'] && leading && !c.peek.any isSpace
        let between := if fold then (if after.isEmpty then [' '] else []) else last
        let (more, end_, left, c) := blockLines folded indent fuel after c
        (breaks ++ line ++ between ++ more, end_, left, c)
      else (breaks ++ line, last, after, c)
    else ([], [], breaks, c)

/-- a block whose indicator comes next, inside an indentation of `indent` -/
def block (folded : Bool) (indent : Int) (c : Cursor) : Option (List Char × Cursor) := do
  let (chomping, increment, c) ← blockSigns c.advance
  let c ← restOfLine? c
  let least := (max (indent + 1) 1).toNat
  let fuel := c.rest.length + 1
  let (depth, breaks, c) := match increment with
    | some n =>
      let depth := least + n - 1
      let (breaks, c) := blockBreaks depth fuel c
      (depth, breaks, c)
    | none =>
      let (breaks, widest, c) := blockIndent fuel 0 c
      (max least widest, breaks, c)
  let (lines, last, left, c) := blockLines folded depth fuel breaks c
  let ending := match chomping with
    | .strip => []
    | .clip => last
    | .keep => last ++ left
  return (lines ++ ending, c)

/-! ### Plain texts -/

/-- a character that bounds something in a flow -/
def isFlowMark (c : Char) : Bool := c = ',' || c = '[' || c = ']' || c = '\x7b' || c = '\x7d'

/-- the number of characters of a plain text up to the next blank or mark -/
def plainLength (inFlow : Bool) : List Char → Nat
  | [] => 0
  | c :: rest =>
    let next := rest.head?
    let ends := isSpace c || isBreak c
      || (c = ':' && (isGap next || (inFlow && next.any isFlowMark)))
      || (inFlow && (isFlowMark c || c = '?'))
    if ends then 0 else plainLength inFlow rest + 1

/-- the blanks and empty lines behind the first line end of a plain text, unless a document ends
there -/
def plainBreaks : Nat → Cursor → Option (List Char × Cursor) × Cursor
  | 0, c => (some ([], c), c)
  | fuel + 1, c =>
    if c.peek = some ' ' then plainBreaks fuel c.advance
    else
      match c.lineBreak? with
      | some (b, c) =>
        if c.atSeparator then (none, c)
        else
          match plainBreaks fuel c with
          | (some (breaks, d), e) => (some (b :: breaks, d), e)
          | (none, e) => (none, e)
      | none => (some ([], c), c)

/-- the gap behind a word of a plain text, whether it holds a line end, and the place behind it; no
gap if a document ends there -/
def plainGap (c : Cursor) : List Char × Bool × Cursor :=
  let (blanks, c) := c.takeWhile (· = ' ')
  match c.lineBreak? with
  | some (b, c) =>
    if c.atSeparator then ([], true, c)
    else
      match plainBreaks (c.rest.length + 1) c with
      | (some (breaks, c), _) => (foldBreak b breaks, true, c)
      | (none, c) => ([], true, c)
  | none => (blanks, false, c)

/-- a plain text with the gap in front of it, and whether a line end comes last -/
def plainTail (inFlow : Bool) (indent : Int) : Nat → List Char → Bool → Cursor →
    List Char × Bool × Cursor
  | 0, _, ended, c => ([], ended, c)
  | fuel + 1, gap, ended, c =>
    if c.peek = some '#' then ([], ended, c)
    else
      let n := plainLength inFlow c.rest
      if n = 0 then ([], ended, c)
      else
        let word := c.rest.take n
        let (next, broken, c) := plainGap (c.advanceBy n)
        if next.isEmpty || c.peek = some '#' || (!inFlow && (c.column : Int) < indent) then
          (gap ++ word, broken, c)
        else
          let (more, ended, c) := plainTail inFlow indent fuel next broken c
          (gap ++ word ++ more, ended, c)

/-- a plain text, whether a line end comes last, and the place behind it -/
def plain (inFlow : Bool) (indent : Int) (c : Cursor) : List Char × Bool × Cursor :=
  plainTail inFlow (indent + 1) (c.rest.length + 1) [] false c

end LintLedger.Yaml
