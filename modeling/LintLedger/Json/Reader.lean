import LintLedger.Value.Compare
import LintLedger.Value.Convert

/-!
# Reading JSON

A reader of JSON texts that also takes `NaN`, `Infinity` and `-Infinity`.  Whole numbers are kept
exactly, a number with a point or an exponent is a double, and of two entries with one key the
later wins.  A character below the blank inside a text, a byte order mark in front and anything but
blanks behind the value make a text unreadable.
-/

namespace LintLedger.Json

/-- why a text is not read -/
inductive Error where
  | malformed
  | hugeInteger (digits : Nat)
deriving Repr, DecidableEq

/-- a blank between the parts of a text -/
def isSpace (c : Char) : Bool := c = ' ' || c = '\t' || c = '\n' || c = '\r'

/-- the characters from the first that is no blank -/
def skip (cs : List Char) : List Char := cs.dropWhile isSpace

/-- a decimal digit of ASCII -/
def isPlainDigit (c : Char) : Bool := '0' ≤ c && c ≤ '9'

/-- the value of a digit in base sixteen -/
def hexValue? (c : Char) : Option Nat :=
  if isPlainDigit c then some (c.toNat - 48)
  else if 'a' ≤ c ∧ c ≤ 'f' then some (c.toNat - 87)
  else if 'A' ≤ c ∧ c ≤ 'F' then some (c.toNat - 55)
  else none

/-- the number that four digits in base sixteen write -/
def hexFour? (a b c d : Char) : Option Nat := do
  let a ← hexValue? a
  let b ← hexValue? b
  let c ← hexValue? c
  let d ← hexValue? d
  return ((a * 16 + b) * 16 + c) * 16 + d

/-- the first half of a pair that stands for one character -/
def isHighHalf (n : Nat) : Bool := 0xd800 ≤ n && n < 0xdc00

/-- the second half of a pair that stands for one character -/
def isLowHalf (n : Nat) : Bool := 0xdc00 ≤ n && n < 0xe000

/-- the character of a code point; a half that stands alone is shown as a replacement -/
def charOf (n : Nat) : Char := if isHighHalf n || isLowHalf n then '\ufffd' else Char.ofNat n

/-- the characters of a run of code points, each pair of halves being one character -/
def joinHalves : List Nat → List Char
  | [] => []
  | [n] => [charOf n]
  | n :: m :: rest =>
    if isHighHalf n && isLowHalf m then
      Char.ofNat (0x10000 + (n - 0xd800) * 0x400 + (m - 0xdc00)) :: joinHalves rest
    else charOf n :: joinHalves (m :: rest)

/-- the character that a short escape stands for -/
def shortEscape? (c : Char) : Option Char :=
  if c = '"' || c = '\\' || c = '/' then some c
  else if c = 'b' then some '\x08'
  else if c = 'f' then some '\x0c'
  else if c = 'n' then some '\n'
  else if c = 'r' then some '\r'
  else if c = 't' then some '\t'
  else none

/-- the code points of a text up to its closing quote, and what follows that -/
def unitsTail? : List Char → Option (List Nat × List Char)
  | [] => none
  | '"' :: rest => some ([], rest)
  | '\\' :: 'u' :: p :: q :: r :: s :: rest =>
    match hexFour? p q r s, unitsTail? rest with
    | some n, some (units, rest) => some (n :: units, rest)
    | _, _ => none
  | '\\' :: e :: rest =>
    match shortEscape? e, unitsTail? rest with
    | some c, some (units, rest) => some (c.toNat :: units, rest)
    | _, _ => none
  | c :: rest =>
    if c = '\\' || c.toNat < 0x20 then none
    else (unitsTail? rest).map fun p => (c.toNat :: p.1, p.2)

/-- a text whose opening quote has been read -/
def textTail? (cs : List Char) : Option (String × List Char) :=
  (unitsTail? cs).map fun p => (String.ofList (joinHalves p.1), p.2)

/-- the digits of a fraction behind its point, none if there is no such fraction -/
def fractionPart : List Char → List Char × List Char
  | '.' :: rest =>
    let ds := rest.takeWhile isPlainDigit
    if ds.isEmpty then ([], '.' :: rest) else (ds, rest.dropWhile isPlainDigit)
  | cs => ([], cs)

/-- the exponent of a number, if one is there -/
def exponentPart : List Char → Option Int × List Char
  | c :: rest =>
    if c = 'e' || c = 'E' then
      let (negative, more) := Decimal.splitSign rest
      let ds := more.takeWhile isPlainDigit
      if ds.isEmpty then (none, c :: rest)
      else (some (Decimal.signed negative (Text.digitsValue ds)), more.dropWhile isPlainDigit)
    else (none, c :: rest)
  | [] => (none, [])

/-- the digits in front of the point: a lone zero, or digits that do not start with one -/
def wholePart : List Char → List Char × List Char
  | '0' :: rest => (['0'], rest)
  | cs => (cs.takeWhile isPlainDigit, cs.dropWhile isPlainDigit)

/-- a number, whose sign has been read -/
def number (negative : Bool) (cs : List Char) : Except Error (Value × List Char) :=
  let (whole, rest) := wholePart cs
  if whole.isEmpty then .error .malformed
  else
    let (fraction, rest) := fractionPart rest
    let (exponent, rest) := exponentPart rest
    if fraction.isEmpty && exponent.isNone then
      if digitLimit < whole.length then .error (.hugeInteger whole.length)
      else .ok (.int (Decimal.signed negative (Text.digitsValue whole)), rest)
    else
      let digits := Text.digitsValue (whole ++ fraction)
      .ok (.float (Decimal.nearestDecimal negative digits (exponent.getD 0 - fraction.length)), rest)

/-- the words of JSON, and what each stands for -/
def words : List (List Char × Value) :=
  [("null".toList, .null), ("true".toList, .bool true), ("false".toList, .bool false),
    ("NaN".toList, .float (Float.ofBits 0x7ff8000000000000)),
    ("Infinity".toList, .float (Float.ofBits 0x7ff0000000000000)),
    ("-Infinity".toList, .float (Float.ofBits 0xfff0000000000000))]

/-- a word or a number -/
def scalar (cs : List Char) : Except Error (Value × List Char) :=
  match words.find? fun w => w.1.isPrefixOf cs with
  | some (word, v) => .ok (v, cs.drop word.length)
  | none =>
    match cs with
    | '-' :: rest => number true rest
    | _ => number false cs

mutual

/-- a value that starts with the first character -/
def value : Nat → List Char → Except Error (Value × List Char)
  | 0, _ => .error .malformed
  | fuel + 1, cs =>
    match cs with
    | '"' :: rest =>
      match textTail? rest with
      | none => .error .malformed
      | some (s, rest) => .ok (.text s, rest)
    | '[' :: rest =>
      match skip rest with
      | ']' :: rest => .ok (.list [], rest)
      | cs => (elements fuel cs).map fun p => (.list p.1, p.2)
    | '\x7b' :: rest =>
      match skip rest with
      | '\x7d' :: rest => .ok (.map [], rest)
      | cs => (members fuel [] cs).map fun p => (.map p.1, p.2)
    | cs => scalar cs

/-- the elements of a list up to its closing bracket -/
def elements : Nat → List Char → Except Error (List Value × List Char)
  | 0, _ => .error .malformed
  | fuel + 1, cs =>
    match value fuel cs with
    | .error e => .error e
    | .ok (x, rest) =>
      match skip rest with
      | ']' :: rest => .ok ([x], rest)
      | ',' :: rest => (elements fuel (skip rest)).map fun p => (x :: p.1, p.2)
      | _ => .error .malformed

/-- the members of a map up to its closing brace, behind those read before -/
def members : Nat → List (Value × Value) → List Char →
    Except Error (List (Value × Value) × List Char)
  | 0, _, _ => .error .malformed
  | fuel + 1, done, cs =>
    match cs with
    | '"' :: rest =>
      match textTail? rest with
      | none => .error .malformed
      | some (name, rest) =>
        match skip rest with
        | ':' :: rest =>
          match value fuel (skip rest) with
          | .error e => .error e
          | .ok (v, rest) =>
            match skip rest with
            | '\x7d' :: rest => .ok (Value.putEntry done (.text name) v, rest)
            | ',' :: rest => members fuel (Value.putEntry done (.text name) v) (skip rest)
            | _ => .error .malformed
        | _ => .error .malformed
    | _ => .error .malformed

end

/-- a value that is the whole of a run of characters, blanks at the ends apart -/
def readChars (cs : List Char) : Except Error Value :=
  match value (2 * cs.length + 2) (skip cs) with
  | .error e => .error e
  | .ok (v, rest) => if (skip rest).isEmpty then .ok v else .error .malformed

/-- a value that is the whole of a text -/
def read (s : String) : Except Error Value := readChars s.toList

end LintLedger.Json
