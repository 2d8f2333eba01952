import LintLedger.Decimal.Binary

/-!
# The fewest digits that read back

A decimal `digits * 10 ^ exponent` reads back as a double if it lies in the interval of numbers
that round to it, the ends included when the mantissa is even.  On the grid of `k` digits only the
two neighbours of the exact value can lie in the interval closest, so the first grid with a hit
gives the fewest digits, and of two hits the nearer wins.
-/

namespace LintLedger.Decimal

/-- `a * 2 ^ twos ≤ c * 10 ^ tens`, in whole numbers -/
def leScaled (a : Nat) (twos : Int) (c : Nat) (tens : Int) : Bool :=
  a * twoTo twos.toNat * tenTo (-tens).toNat ≤ c * tenTo tens.toNat * twoTo (-twos).toNat

/-- `c * 10 ^ tens ≤ a * 2 ^ twos`, in whole numbers -/
def geScaled (a : Nat) (twos : Int) (c : Nat) (tens : Int) : Bool :=
  c * tenTo tens.toNat * twoTo (-twos).toNat ≤ a * twoTo twos.toNat * tenTo (-tens).toNat

/-- the numbers that round to `mantissa * 2 ^ exponent`, counted in quarters of its unit -/
structure Interval where
  low : Nat
  high : Nat
  quarter : Int
  closed : Bool

/-- the interval of a positive double; below a power of two the doubles lie twice as close -/
def Interval.of (m : Nat) (e : Int) : Interval where
  low := if m = twoTo 52 ∧ -1074 < e then 4 * m - 1 else 4 * m - 2
  high := 4 * m + 2
  quarter := e - 2
  closed := m % 2 == 0

/-- whether `c * 10 ^ tens` rounds to the double of the interval -/
def Interval.contains (i : Interval) (c : Nat) (tens : Int) : Bool :=
  if i.closed then leScaled i.low i.quarter c tens && geScaled i.high i.quarter c tens
  else !(geScaled i.low i.quarter c tens) && !(leScaled i.high i.quarter c tens)

/-- the number of digits of a natural number, none for zero -/
def digitCount (n : Nat) : Nat := if n = 0 then 0 else (Nat.toDigits 10 n).length

/-- the place of the decimal point: `10 ^ (point - 1) ≤ m * 2 ^ e < 10 ^ point` -/
def decimalPoint (m : Nat) (e : Int) : Int :=
  (digitCount (m * twoTo e.toNat * tenTo 400 / twoTo (-e).toNat) : Int) - 400

/-- the decimal of `k` digits that reads back, the nearer one if both neighbours do -/
def candidate? (m : Nat) (e point : Int) (i : Interval) (k : Nat) : Option (Nat × Int) :=
  let tens := point - k
  let num := m * twoTo e.toNat * tenTo (-tens).toNat
  let den := twoTo (-e).toNat * tenTo tens.toNat
  let below := num / den
  let nearer := (roundDiv num den).toNat
  let further := if nearer = below then below + 1 else below
  if i.contains nearer tens then some (nearer, tens)
  else if i.contains further tens then some (further, tens)
  else none

/-- the fewest digits that read back as `m * 2 ^ e`, with the power of ten of the last -/
def shortestOf (m : Nat) (e : Int) : Nat × Int :=
  let point := decimalPoint m e
  let i := Interval.of m e
  ((List.range 17).findSome? fun k => candidate? m e point i (k + 1)).getD (m * twoTo e.toNat, 0)

/-- a digit string without the zeros at its end, with the power of ten that makes up for them -/
def dropZeros (n : Nat) (tens : Int) : Nat × Int :=
  let ds := (Nat.toDigits 10 n).reverse
  let zeros := (ds.takeWhile (· == '0')).length
  if n = 0 then (0, 0) else (n / tenTo zeros, tens + zeros)

end LintLedger.Decimal
