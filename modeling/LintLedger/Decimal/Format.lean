import LintLedger.Decimal.Shortest

/-!
# Numbers as text

Three ways to write a double: the fewest digits that read back, a fixed number of significant
digits, and a fixed number of places.  Each takes the exact value apart, so no rounding happens
twice; halves go to the even digit.
-/

namespace LintLedger.Decimal

/-- when a number is written with its point in place rather than with an exponent, and how -/
structure Style where
  /-- the least exponent of ten of a leading digit that is written in place -/
  leastPlaced : Int
  /-- the exponent of ten of a leading digit from which on an exponent is written -/
  firstPowered : Int
  /-- a whole number in place is followed by `.0` -/
  wholeMark : Bool

/-- a number in full: from `0.0001` up to but not including `1e+16` its point stands in place, and a
whole number keeps `.0` -/
def Style.full : Style := ⟨-4, 16, true⟩

/-- a number in six digits: from `0.0001` up to but not including `1e+06` its point stands in place,
and a whole number has none -/
def Style.six : Style := ⟨-4, 6, false⟩

/-- a sign in front of a text -/
def withSign (negative : Bool) (s : String) : String := if negative then "-" ++ s else s

/-- the digits of a natural number as text -/
def digitText (n : Nat) : String := String.ofList (Nat.toDigits 10 n)

/-- an exponent: its sign and at least two digits -/
def exponentText (e : Int) : String :=
  let ds := Nat.toDigits 10 e.natAbs
  let ds := if ds.length < 2 then '0' :: ds else ds
  "e" ++ (if e < 0 then "-" else "+") ++ String.ofList ds

/-- digits with their point in place, `tens` being the power of ten of the last digit -/
def placed (digits : Nat) (tens : Int) (wholeMark : Bool) : String :=
  let ds := Nat.toDigits 10 digits
  if 0 ≤ tens then
    String.ofList (ds ++ List.replicate tens.toNat '0') ++ (if wholeMark then ".0" else "")
  else
    let places := (-tens).toNat
    let padded := List.replicate (places + 1 - ds.length) '0' ++ ds
    let whole := padded.length - places
    String.ofList (padded.take whole) ++ "." ++ String.ofList (padded.drop whole)

/-- digits with an exponent -/
def powered (digits : Nat) (tens : Int) : String :=
  let ds := Nat.toDigits 10 digits
  let e := tens + (ds.length - 1 : Nat)
  match ds with
  | [] => ""
  | [d] => String.ofList [d] ++ exponentText e
  | d :: rest => String.ofList (d :: '.' :: rest) ++ exponentText e

/-- a decimal in a style; its digits do not end in zero unless it is zero -/
def Style.render (style : Style) (digits : Nat) (tens : Int) : String :=
  let lead := tens + ((Nat.toDigits 10 digits).length - 1 : Nat)
  if digits = 0 then placed 0 0 style.wholeMark
  else if style.leastPlaced ≤ lead ∧ lead < style.firstPowered then
    placed digits tens style.wholeMark
  else powered digits tens

/-- a double in the fewest digits that read back -/
def shortest (x : Float) : String :=
  match reading x with
  | .undefined => "nan"
  | .infinite negative => withSign negative "inf"
  | .finite negative m e =>
    if m = 0 then withSign negative (Style.full.render 0 0)
    else
      let (digits, tens) := shortestOf m e
      let (digits, tens) := dropZeros digits tens
      withSign negative (Style.full.render digits tens)

/-- a positive double rounded to `count` significant digits -/
def significantOf (count m : Nat) (e : Int) : Nat × Int :=
  let tens := decimalPoint m e - count
  let num := m * twoTo e.toNat * tenTo (-tens).toNat
  let den := twoTo (-e).toNat * tenTo tens.toNat
  dropZeros (roundDiv num den).toNat tens

/-- a double in at most six significant digits -/
def general (x : Float) : String :=
  match reading x with
  | .undefined => "nan"
  | .infinite negative => withSign negative "inf"
  | .finite negative m e =>
    if m = 0 then withSign negative "0"
    else
      let (digits, tens) := significantOf 6 m e
      withSign negative (Style.six.render digits tens)

/-- a double with a fixed number of places -/
def fixed (places : Nat) (x : Float) : String :=
  match reading x with
  | .undefined => "nan"
  | .infinite negative => withSign negative "inf"
  | .finite negative m e =>
    let (num, den) := scaleTwo m e
    let units := (roundDiv (num * tenTo places : Nat) den).toNat
    withSign negative (placed units (-(places : Int)) false)

end LintLedger.Decimal
