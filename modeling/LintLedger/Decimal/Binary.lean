/-!
# The exact value of a double

A double is a whole number of halves, quarters, … of one.  Here it is taken apart into sign,
mantissa and power of two, compared as a rational number, rounded to a whole number with halves
going to the even neighbour, and built again as the double nearest to a rational number.
-/

namespace LintLedger.Decimal

/-- a power of two -/
def twoTo (n : Nat) : Nat := Nat.pow 2 n

/-- a power of ten -/
def tenTo (n : Nat) : Nat := Nat.pow 10 n

/-- what a double stands for: `mantissa * 2 ^ exponent`, an infinity, or no number at all -/
inductive Reading where
  | finite (negative : Bool) (mantissa : Nat) (exponent : Int)
  | infinite (negative : Bool)
  | undefined
deriving Repr, DecidableEq

/-- the parts of a double -/
def reading (x : Float) : Reading :=
  let bits : Nat := x.toBits.toNat
  let negative := bits / twoTo 63 == 1
  let biased : Nat := bits / twoTo 52 % 2048
  let fraction : Nat := bits % twoTo 52
  if biased = 2047 then
    if fraction = 0 then .infinite negative else .undefined
  else if biased = 0 then .finite negative fraction (-1074)
  else .finite negative (fraction + twoTo 52) (Int.ofNat biased - 1075)

/-- a natural number times a power of two, as a fraction -/
def scaleTwo (m : Nat) (e : Int) : Nat × Nat := (m * twoTo e.toNat, twoTo (-e).toNat)

/-- the rational number that a double stands for, if it stands for one -/
def rational? (x : Float) : Option Rat :=
  match reading x with
  | .finite negative m e =>
    let (num, den) := scaleTwo m e
    some (mkRat (if negative then -num else num) den)
  | _ => none

/-- `num / den` rounded to a whole number, a half going to the even neighbour -/
def roundDiv (num : Int) (den : Nat) : Int :=
  let floor := num.fdiv den
  let twice := 2 * num.fmod den
  if twice < den then floor
  else if (den : Int) < twice then floor + 1
  else if floor % 2 = 0 then floor else floor + 1

/-- a rational number rounded to a whole number, a half going to the even neighbour -/
def roundHalfEven (q : Rat) : Int := roundDiv q.num q.den

/-- a rational number without its fraction -/
def truncate (q : Rat) : Int := q.num.tdiv q.den

/-- the power of two of the unit in which a double near `num / den` counts -/
def unitExponent (num den : Nat) : Int :=
  let guess : Int := (num.log2 : Int) - (den.log2 : Int) - 52
  let (n, d) := if guess < 0 then (num * twoTo (-guess).toNat, den) else (num, den * twoTo guess.toNat)
  let guess := if n / d < twoTo 52 then guess - 1 else guess
  max guess (-1074)

/-- the double nearest to the fraction `num / den`, halves going to the even mantissa -/
def nearestFloat (negative : Bool) (num den : Nat) : Float :=
  let e := unitExponent num den
  let m : Nat :=
    if num = 0 then 0
    else if e < 0 then (roundDiv ((num * twoTo (-e).toNat : Nat) : Int) den).toNat
    else (roundDiv (num : Int) (den * twoTo e.toNat)).toNat
  let (m, e) := if m = twoTo 53 then (twoTo 52, e + 1) else (m, e)
  let magnitude : Nat :=
    if m < twoTo 52 then m
    else if 971 < e then 2047 * twoTo 52
    else (e + 1075).toNat * twoTo 52 + (m - twoTo 52)
  Float.ofBits (UInt64.ofNat (magnitude + if negative then twoTo 63 else 0))

/-- the double nearest to a whole number, `none` if that lies beyond the largest double -/
def floatOfInt? (i : Int) : Option Float :=
  let x := nearestFloat (i < 0) i.natAbs 1
  if x.isFinite then some x else none

end LintLedger.Decimal
