import LintLedger.Value.Compare
import LintLedger.Value.Convert

/-!
# Amounts of time

A measured time in seconds, which may be given as a whole number or with a fraction.  Times are
compared and rounded exactly; halves go to the even neighbour.
-/

namespace LintLedger

/-- a number of seconds -/
inductive Amount where
  | whole (i : Int)
  | real (x : Float)
deriving Inhabited

namespace Amount

/-- no time at all -/
def zero : Amount := real 0

/-- the amount that a value gives, if it is a number -/
def ofValue? : Value → Option Amount
  | .bool b => some (whole (if b then 1 else 0))
  | .int i => some (whole i)
  | .float x => some (real x)
  | _ => none

/-- whether an amount lies above a limit -/
def isAbove (a : Amount) (limit : Float) : Bool :=
  match a with
  | whole i => Value.numberBefore (.float limit) (.int i)
  | real x => limit < x

/-- a double rounded to a whole number -/
def roundFloat (x : Float) : Except Fault Int :=
  match Decimal.rational? x with
  | some q => .ok (Decimal.roundHalfEven q)
  | none => .error (if x.isNaN then .undefined else .infinite)

/-- an amount rounded to whole seconds -/
def rounded : Amount → Except Fault Int
  | whole i => .ok i
  | real x => roundFloat x

/-- an amount in whole thousandths of a second -/
def milliseconds : Amount → Except Fault Int
  | whole i => .ok (i * 1000)
  | real x => roundFloat (x * 1000)

end Amount

end LintLedger
