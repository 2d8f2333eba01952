import LintLedger.Json.Reader

/-!
# Texts with escapes

What a backslash stands for in the words that a host echoes and in the formats that it fills.  An
escape can give any byte, so a filled format is a run of bytes, and whether it is a text shows only
at its end.
-/

namespace LintLedger.Host

/-- where escapes stand -/
inductive EscapeRule where
  /-- in the words of an echo: digits in base eight follow a zero -/
  | echoed
  /-- in the format of a script: at most three digits in base eight -/
  | script
  /-- in the format of a program, which knows base sixteen and the double quote as well -/
  | program
deriving Repr, DecidableEq

/-- the byte that a short escape stands for -/
def shortByte? (c : Char) : Option UInt8 :=
  [
    ('a', 7), ('b', 8), ('t', 9), ('n', 10), ('v', 11), ('f', 12), ('r', 13),
    ('\\', 92)].lookup c

/-- a digit in base eight -/
def isOctal (c : Char) : Bool := '0' ≤ c && c ≤ '7'

/-- the byte of the digits in front, of which there are at most `most`, and what follows them -/
def coded (base most : Nat) (isDigit : Char → Bool) (cs : List Char) : UInt8 × List Char :=
  let ds := (cs.take most).takeWhile isDigit
  let n := ds.foldl (fun acc d => acc * base + (Json.hexValue? d).getD 0) 0
  (UInt8.ofNat n, cs.drop ds.length)

/-- the byte of an escape behind its backslash, and what follows it -/
def escaped? (rule : EscapeRule) : List Char → Option (UInt8 × List Char)
  | [] => none
  | c :: rest =>
    match shortByte? c with
    | some b => some (b, rest)
    | none =>
      if isOctal c then
        some (coded 8 3 isOctal
          (if rule = .echoed && c = '0' && rest.head?.any isOctal then rest else c :: rest))
      else if rule = .program && c = '"' then some (34, rest)
      else if rule = .program && c = 'e' then some (27, rest)
      else if rule = .program && c = 'x' && rest.head?.any fun d => (Json.hexValue? d).isSome then
        some (coded 16 2 (fun d => (Json.hexValue? d).isSome) rest)
      else none

/-- the bytes of a text -/
def bytesOf (s : String) : List UInt8 := s.toUTF8.toList

/-- a part of a format: a byte, a place for a word, or the end of all output -/
inductive Piece where
  | byte (b : UInt8)
  | place (kind : Char)
  | stop
deriving Repr, DecidableEq

/-- the kinds of places in a format -/
def placeKinds : List Char := ['s', 'b', 'c', 'd', 'i']

/-- the parts of a run of characters of which `fuel` at most are read; only where `places` says so
are there places for words -/
def piecesFrom (rule : EscapeRule) (places : Bool) : Nat → List Char → List Piece
  | 0, _ => []
  | _, [] => []
  | fuel + 1, c :: rest =>
    let plain := (bytesOf (String.singleton c)).map Piece.byte
    if c = '\\' then
      if rule != .script && rest.head? = some 'c' then [.stop]
      else
        match escaped? rule rest with
        | some (b, rest) => .byte b :: piecesFrom rule places fuel rest
        | none => plain ++ piecesFrom rule places fuel rest
    else if places && c = '%' then
      match rest with
      | '%' :: rest => plain ++ piecesFrom rule places fuel rest
      | kind :: more =>
        if placeKinds.contains kind then .place kind :: piecesFrom rule places fuel more
        else plain ++ piecesFrom rule places fuel rest
      | [] => plain
    else plain ++ piecesFrom rule places fuel rest

/-- the parts of a text -/
def pieces (rule : EscapeRule) (places : Bool) (s : String) : List Piece :=
  piecesFrom rule places s.length s.toList

/-- the bytes up to the end of output, and whether that has been reached -/
def flatten : List Piece → List UInt8 × Bool
  | [] => ([], false)
  | .byte b :: rest => let (more, stopped) := flatten rest; (b :: more, stopped)
  | .place _ :: rest => flatten rest
  | .stop :: _ => ([], true)

/-- the bytes that a word gives at a place, and whether output ends there -/
def placed (kind : Char) (word : Option String) : List UInt8 × Bool :=
  let w := word.getD ""
  if kind = 'b' then flatten (pieces .echoed false w)
  else if kind = 'c' then ((bytesOf w).take 1, false)
  else if kind = 's' then (bytesOf w, false)
  else (bytesOf (word.getD "0"), false)

/-- a format filled once: its bytes, the words that are left, and whether output has ended -/
def fillOnce : List Piece → List String → List UInt8 × List String × Bool
  | [], words => ([], words, false)
  | .stop :: _, words => ([], words, true)
  | .byte b :: rest, words =>
    let (more, words, stopped) := fillOnce rest words
    (b :: more, words, stopped)
  | .place kind :: rest, words =>
    let (here, ended) := placed kind words.head?
    if ended then (here, words.tail, true)
    else
      let (more, words, stopped) := fillOnce rest words.tail
      (here ++ more, words, stopped)

/-- a format filled again and again until no words are left, `fuel` times at most -/
def fillFrom (format : List Piece) : Nat → List String → List UInt8
  | 0, _ => []
  | fuel + 1, words =>
    let (here, left, stopped) := fillOnce format words
    if stopped || left.isEmpty || left.length = words.length then here
    else here ++ fillFrom format fuel left

/-- a format filled with words; each filling takes at least one of them -/
def filled (rule : EscapeRule) (format : String) (words : List String) : List UInt8 :=
  fillFrom (pieces rule true format) (words.length + 1) words

/-- a text with its escapes resolved -/
def resolved (rule : EscapeRule) (s : String) : List UInt8 := (flatten (pieces rule false s)).1

end LintLedger.Host
