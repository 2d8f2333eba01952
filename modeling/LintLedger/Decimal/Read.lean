import LintLedger.Decimal.Binary
import LintLedger.Text.Blank
import LintLedger.Text.Digit

/-!
# Reading numbers

The two grammars of a number in a text.  Both drop blanks at the ends, take one sign, know the
decimal digits of every script, and allow a single underscore between two digits.
-/

namespace LintLedger.Decimal

open LintLedger.Text

/-- the sign in front of a run of characters, and the rest -/
def splitSign : List Char → Bool × List Char
  | '-' :: rest => (true, rest)
  | '+' :: rest => (false, rest)
  | cs => (false, cs)

/-- a run of digits in which each underscore stands between two digits, without the underscores -/
def dropUnderscores : List Char → Option (List Char)
  | [] => some []
  | '_' :: _ => none
  | c :: '_' :: d :: rest =>
    if isDigit c && isDigit d then (dropUnderscores (d :: rest)).map (c :: ·) else none
  | c :: rest => (dropUnderscores rest).map (c :: ·)

/-- the digits of a whole number and its sign -/
def wholeDigits? (cs : List Char) : Option (Bool × List Char) :=
  let (negative, body) := splitSign (trim cs)
  match dropUnderscores body with
  | some ds => if !ds.isEmpty && ds.all isDigit then some (negative, ds) else none
  | none => none

/-- a natural number with a sign -/
def signed (negative : Bool) (n : Nat) : Int := if negative then -(n : Int) else n

/-- a text in lower case, of which only the letters of ASCII change -/
def lowerAscii (cs : List Char) : List Char := cs.map Char.toLower

/-- the exponent of ten behind the letter `e`; nothing there means zero -/
def exponent? : List Char → Option Int
  | [] => some 0
  | c :: rest =>
    if c = 'e' || c = 'E' then
      let (negative, ds) := splitSign rest
      if !ds.isEmpty && ds.all isDigit then some (signed negative (digitsValue ds)) else none
    else none

/-- the double nearest to `digits * 10 ^ tens`; exponents beyond the range of doubles are cut off
before a power is taken -/
def nearestDecimal (negative : Bool) (digits : Nat) (tens : Int) : Float :=
  let size : Int := (digits.log2 : Int) / 3 + 1
  if digits = 0 || tens + size < -400 then nearestFloat negative 0 1
  else if 400 < tens then nearestFloat negative (tenTo 400) 1
  else nearestFloat negative (digits * tenTo tens.toNat) (tenTo (-tens).toNat)

/-- a number with optional point and exponent, without sign -/
def decimal? (negative : Bool) (cs : List Char) : Option Float :=
  let whole := cs.takeWhile isDigit
  let (fraction, rest) :=
    match cs.dropWhile isDigit with
    | '.' :: more => (more.takeWhile isDigit, more.dropWhile isDigit)
    | other => ([], other)
  if whole.isEmpty && fraction.isEmpty then none
  else
    (exponent? rest).map fun e =>
      nearestDecimal negative (digitsValue (whole ++ fraction)) (e - fraction.length)

/-- the words that stand for an infinity or for no number -/
def word? (negative : Bool) (cs : List Char) : Option Float :=
  let w := String.ofList (lowerAscii cs)
  if w = "inf" || w = "infinity" then
    some (Float.ofBits (if negative then 0xfff0000000000000 else 0x7ff0000000000000))
  else if w = "nan" then some (Float.ofBits 0x7ff8000000000000)
  else none

/-- the double that a text writes -/
def float? (s : String) : Option Float :=
  let (negative, body) := splitSign (trim s.toList)
  match word? negative body with
  | some x => some x
  | none => (dropUnderscores body).bind (decimal? negative)

end LintLedger.Decimal
