import LintLedger.Yaml.Scalar

/-!
# Tokens of a YAML text

A YAML text is cut into tokens before its structure is read.  What is indented further opens a block
and what is indented less closes one.  That a text is the key of a mapping shows only at the colon
behind it, so the places at which a key may have begun are kept until they can be one no more: a key
stands on one line and is not longer than 1024 characters.
-/

namespace LintLedger.Yaml

/-- a token -/
inductive Token where
  | directive (name : String) (words : List String)
  | documentStart | documentEnd
  | blockSequenceStart | blockMappingStart | blockEnd
  | flowSequenceStart | flowSequenceEnd | flowMappingStart | flowMappingEnd
  | flowEntry | blockEntry | key | value
  | alias (name : String)
  | anchor (name : String)
  | tag (handle : Option String) (rest : String)
  | scalar (text : String) (isPlain : Bool)
deriving Repr, DecidableEq

/-- a place at which a key may have begun -/
structure KeyPlace where
  level : Nat
  position : Nat
  required : Bool
  index : Nat
  line : Nat
  column : Nat

/-- the tokens read so far, and what is needed to read on -/
structure Lexer where
  cursor : Cursor
  level : Nat
  indent : Int
  indents : List Int
  keyAllowed : Bool
  keys : List KeyPlace
  tokens : Array Token

namespace Lexer

/-- in front of a text; a byte order mark is passed over -/
def start (cs : List Char) : Lexer :=
  let c := Cursor.start cs
  ⟨if c.peek = some '\ufeff' then c.advance else c, 0, -1, [], true, [], #[]⟩

/-- with one more token -/
def push (l : Lexer) (t : Token) : Lexer := { l with tokens := l.tokens.push t }

/-- behind `n` more characters -/
def advance (l : Lexer) (n : Nat) : Lexer := { l with cursor := l.cursor.advanceBy n }

/-- with or without a key allowed to begin next -/
def allowing (l : Lexer) (allowed : Bool) : Lexer := { l with keyAllowed := allowed }

/-- without the places that can begin a key no more, none of which may have had to be one -/
def dropStale (l : Lexer) : Option Lexer :=
  let isStale (k : KeyPlace) : Bool := k.line != l.cursor.line || 1024 < l.cursor.index - k.index
  if l.keys.any fun k => isStale k && k.required then none
  else some { l with keys := l.keys.filter fun k => !isStale k }

/-- without the place at the present level, which may not have had to be a key -/
def dropKey (l : Lexer) : Option Lexer :=
  if l.keys.any fun k => k.level = l.level && k.required then none
  else some { l with keys := l.keys.filter fun k => k.level != l.level }

/-- with a place here at which a key may begin, if one is allowed -/
def saveKey (l : Lexer) : Option Lexer :=
  if l.keyAllowed then do
    let l ← l.dropKey
    let c := l.cursor
    let place : KeyPlace :=
      ⟨l.level, l.tokens.size, l.level = 0 && l.indent = c.column, c.index, c.line, c.column⟩
    return { l with keys := place :: l.keys }
  else some l

/-- with the blocks closed that are indented further than a column -/
def unwind (column : Int) : Nat → Lexer → Lexer
  | 0, l => l
  | fuel + 1, l =>
    if l.level = 0 && column < l.indent then
      unwind column fuel
        { (l.push .blockEnd) with indent := l.indents.headD (-1), indents := l.indents.tail }
    else l

/-- with the blocks closed that are indented further than a column -/
def unwindTo (l : Lexer) (column : Int) : Lexer := unwind column (l.indents.length + 1) l

/-- with a block opened at a column by a token at a position, if it is indented further -/
def openBlock (l : Lexer) (column : Nat) (position : Nat) (t : Token) : Lexer :=
  if l.level = 0 && l.indent < column then
    { l with
      indents := l.indent :: l.indents
      indent := column
      tokens := l.tokens.insertIdxIfInBounds position t }
  else l

/-- behind blanks, comments and line ends; behind a line end a key may begin, unless in a flow -/
def skipGaps : Nat → Lexer → Lexer
  | 0, l => l
  | fuel + 1, l =>
    let c := l.cursor.skipWhile (· = ' ')
    let c := if c.peek = some '#' then c.skipWhile (fun d => !isBreak d) else c
    match c.lineBreak? with
    | some (_, c) =>
      skipGaps fuel { l with cursor := c, keyAllowed := l.keyAllowed || l.level = 0 }
    | none => { l with cursor := c }

/-! ### Single tokens -/

/-- a character of a name -/
def isNameChar (c : Char) : Bool := c.isAlphanum || c = '-' || c = '_'

/-- a character of a tag -/
def isTagChar (c : Char) : Bool := c.isAlphanum || "-;/?:@&=+$,_.!~*'()[]%".toList.contains c

/-- a name behind a mark, and the place behind it -/
def name? (c : Cursor) : Option (String × Cursor) :=
  let (name, c) := c.takeWhile isNameChar
  if name.isEmpty then none else some (String.ofList name, c)

/-- an anchor or an alias, whose mark comes next -/
def anchorName? (c : Cursor) : Option (String × Cursor) := do
  let (name, c) ← name? c.advance
  if isGap c.peek || c.peek.any fun d => "?:,]\x7d%@".toList.contains d || d = Char.ofNat 96 then
    some (name, c)
  else none

/-- a text in which a percent sign and two digits stand for a byte -/
def unescaped? : List Char → Option (List UInt8)
  | [] => some []
  | '%' :: a :: b :: rest => do
    let high ← Json.hexValue? a
    let low ← Json.hexValue? b
    return UInt8.ofNat (high * 16 + low) :: (← unescaped? rest)
  | c :: rest =>
    if c = '%' then none
    else (unescaped? rest).map fun bytes => (String.singleton c).toUTF8.toList ++ bytes

/-- the text of a tag, and the place behind it -/
def tagText? (c : Cursor) : Option (String × Cursor) := do
  let (chars, c) := c.takeWhile isTagChar
  if chars.isEmpty then none
  else
    let bytes ← unescaped? chars
    let text ← String.fromUTF8? bytes.toByteArray
    return (text, c)

/-- the handle of a tag: two exclamation marks with a name or nothing between them -/
def tagHandle? (c : Cursor) : Option (String × Cursor) :=
  let (name, c) := c.advance.takeWhile isNameChar
  if c.peek = some '!' then some ("!" ++ String.ofList name ++ "!", c.advance) else none

/-- a tag, whose mark comes next -/
def tag? (c : Cursor) : Option (Token × Cursor) := do
  let (t, c) ←
    if c.peekAt 1 = some '<' then do
      let (text, c) ← tagText? (c.advanceBy 2)
      if c.peek = some '>' then some (Token.tag none text, c.advance) else none
    else if isGap (c.peekAt 1) then some (Token.tag none "!", c.advance)
    else
      let later := (c.rest.drop 1).takeWhile fun d => !(d = ' ' || isBreak d)
      if later.contains '!' then do
        let (handle, c) ← tagHandle? c
        let (text, c) ← tagText? c
        return (Token.tag (some handle) text, c)
      else do
        let (text, c) ← tagText? c.advance
        return (Token.tag (some "!") text, c)
  if isPlainGap c.peek then some (t, c) else none

/-- a directive, whose mark comes next -/
def directive? (c : Cursor) : Option (Token × Cursor) := do
  let (name, c) ← name? c.advance
  if !isPlainGap c.peek then none
  let (line, c) := c.takeWhile fun d => !isBreak d
  let line := line.takeWhile (· != '#')
  let words := ((String.ofList line).splitOn " ").filter (· != "")
  let c := match c.lineBreak? with
    | some (_, c) => c
    | none => c
  return (.directive name words, c)

/-! ### Tokens that open or close something -/

/-- with all blocks closed, in front of something that stands at the margin -/
def atMargin (l : Lexer) : Option Lexer := (l.unwindTo (-1)).dropKey.map (·.allowing false)

/-- with a token that separates documents -/
def separator (l : Lexer) (t : Token) : Option Lexer :=
  l.atMargin.map fun l => (l.advance 3).push t

/-- with a flow opened -/
def openFlow (l : Lexer) (t : Token) : Option Lexer := do
  let l ← l.saveKey
  return (({ l with level := l.level + 1 }.allowing true).advance 1).push t

/-- with a flow closed -/
def closeFlow (l : Lexer) (t : Token) : Option Lexer := do
  let l ← l.dropKey
  if l.level = 0 then none
  else return (({ l with level := l.level - 1 }.allowing false).advance 1).push t

/-- with a comma -/
def flowComma (l : Lexer) : Option Lexer := do
  let l ← (l.allowing true).dropKey
  return (l.advance 1).push .flowEntry

/-- with the dash of an entry -/
def dash (l : Lexer) : Option Lexer := do
  if l.level = 0 && !l.keyAllowed then none
  let l := l.openBlock l.cursor.column l.tokens.size .blockSequenceStart
  let l ← (l.allowing true).dropKey
  return (l.advance 1).push .blockEntry

/-- with a question mark in front of a key -/
def questionMark (l : Lexer) : Option Lexer := do
  if l.level = 0 && !l.keyAllowed then none
  let l := l.openBlock l.cursor.column l.tokens.size .blockMappingStart
  let l ← (l.allowing (l.level = 0)).dropKey
  return (l.advance 1).push .key

/-- with the colon behind a key; if the key could have begun earlier, it did -/
def colon (l : Lexer) : Option Lexer :=
  match l.keys.find? fun k => k.level = l.level with
  | some k =>
    let l := { l with
      keys := l.keys.filter fun k => k.level != l.level
      tokens := l.tokens.insertIdxIfInBounds k.position .key }
    let l := l.openBlock k.column k.position .blockMappingStart
    some (((l.allowing false).advance 1).push .value)
  | none => do
    if l.level = 0 && !l.keyAllowed then none
    let l := l.openBlock l.cursor.column l.tokens.size .blockMappingStart
    let l ← (l.allowing (l.level = 0)).dropKey
    return (l.advance 1).push .value

/-- with a token that may begin a key -/
def keyLike (l : Lexer) (read : Cursor → Option (Token × Cursor)) : Option Lexer := do
  let l ← l.saveKey
  let (t, c) ← read l.cursor
  return ({ l with cursor := c }.allowing false).push t

/-- with a quoted text -/
def quotedText (double : Bool) (c : Cursor) : Option (Token × Cursor) :=
  (quoted double c).map fun p => (.scalar (String.ofList p.1) false, p.2)

/-- with a block -/
def blockText (folded : Bool) (l : Lexer) : Option Lexer := do
  let l ← (l.allowing true).dropKey
  let (text, c) ← block folded l.indent l.cursor
  return { l with cursor := c }.push (.scalar (String.ofList text) false)

/-- with a plain text -/
def plainText (l : Lexer) : Option Lexer := do
  let l ← l.saveKey
  let (text, ended, c) := plain (l.level != 0) l.indent l.cursor
  return ({ l with cursor := c }.allowing ended).push (.scalar (String.ofList text) true)

/-- a character that begins something else than a plain text -/
def isIndicator (c : Char) : Bool :=
  isSpace c || isBreak c || "-?:,[]\x7b\x7d#&*!|>'\"%@".toList.contains c || c = Char.ofNat 96

/-- whether a plain text begins here -/
def atPlain (l : Lexer) : Bool :=
  match l.cursor.peek with
  | none => false
  | some c =>
    !isIndicator c
      || (!isGap (l.cursor.peekAt 1) && (c = '-' || (l.level = 0 && (c = '?' || c = ':'))))

/-- with the next token, which begins with `d` -/
def nextFrom (l : Lexer) (d : Char) : Option Lexer :=
  let c := l.cursor
  let atGap := isGap (c.peekAt 1)
  let inFlow := l.level != 0
  if d = '%' && c.column = 0 then do
    let l ← l.atMargin
    let (t, c) ← directive? l.cursor
    return { l with cursor := c }.push t
  else if c.column = 0 && c.atSeparator then
    l.separator (if d = '-' then .documentStart else .documentEnd)
  else if d = '[' then l.openFlow .flowSequenceStart
  else if d = '\x7b' then l.openFlow .flowMappingStart
  else if d = ']' then l.closeFlow .flowSequenceEnd
  else if d = '\x7d' then l.closeFlow .flowMappingEnd
  else if d = ',' then l.flowComma
  else if d = '-' && atGap then l.dash
  else if d = '?' && (inFlow || atGap) then l.questionMark
  else if d = ':' && (inFlow || atGap) then l.colon
  else if d = '*' then l.keyLike fun c => (anchorName? c).map fun p => (.alias p.1, p.2)
  else if d = '&' then l.keyLike fun c => (anchorName? c).map fun p => (.anchor p.1, p.2)
  else if d = '!' then l.keyLike tag?
  else if d = '|' && !inFlow then l.blockText false
  else if d = '>' && !inFlow then l.blockText true
  else if d = '\'' then l.keyLike (quotedText false)
  else if d = '"' then l.keyLike (quotedText true)
  else if l.atPlain then l.plainText
  else none

/-- the tokens up to the end of the text -/
def run : Nat → Lexer → Option (List Token)
  | 0, _ => none
  | fuel + 1, l => do
    let l := l.skipGaps (l.cursor.rest.length + 1)
    let l ← l.dropStale
    let l := l.unwindTo l.cursor.column
    match l.cursor.peek with
    | none =>
      let l ← (l.unwindTo (-1)).dropKey
      return l.tokens.toList
    | some d =>
      let l ← l.nextFrom d
      run fuel l

end Lexer

/-- a character that may stand in a YAML text -/
def isAllowed (c : Char) : Bool :=
  let n := c.toNat
  n = 9 || n = 10 || n = 13 || (0x20 ≤ n && n ≤ 0x7e) || n = 0x85 || (0xa0 ≤ n && n ≤ 0xd7ff)
    || (0xe000 ≤ n && n ≤ 0xfffd) || 0x10000 ≤ n

/-- the tokens of a text -/
def tokens? (cs : List Char) : Option (List Token) :=
  if cs.all isAllowed then Lexer.run (cs.length + 1) (Lexer.start cs) else none

end LintLedger.Yaml
