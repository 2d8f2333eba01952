import LintLedger.Value.Show

/-!
# Faults

What goes wrong when a value is used as something that it is not.  Each fault names its cause;
`Fault.message` is its wording.
-/

namespace LintLedger

/-- a value used as something that it is not -/
inductive Fault where
  /-- a value of this kind has no items to go through -/
  | notIterable (kind : Kind)
  /-- a value of this kind has no entries -/
  | notMapping (kind : Kind)
  /-- a value of this kind cannot be a key -/
  | unhashable (kind : Kind)
  /-- a range of positions cannot be a key -/
  | unhashableRange
  /-- a value of this kind has no positions -/
  | noPositions (kind : Kind)
  /-- a value of this kind does not offer what was asked of it -/
  | lacks (kind : Kind) (what : String)
  /-- two values without a common order -/
  | incomparable (left right : Kind)
  /-- a value of this kind stands where only texts can be joined -/
  | notJoinable (position : Nat) (kind : Kind)
  /-- a value of this kind is not a whole number and writes none -/
  | noInteger (kind : Kind)
  /-- a value of this kind is not a number and writes none -/
  | noNumber (kind : Kind)
  /-- a value of this kind cannot be added to a time -/
  | notAddable (kind : Kind)
  /-- a value of this kind does not count days -/
  | notDays (kind : Kind)
  /-- a text that writes no whole number -/
  | badInteger (text : String)
  /-- a text that writes no whole number in a base -/
  | badDigits (base : Nat) (text : String)
  /-- a part of a date that lies outside its bounds -/
  | badDate (text : String)
  /-- a text that writes no number -/
  | badNumber (text : String)
  /-- a whole number of too many digits -/
  | hugeInteger (digits : Nat)
  /-- an infinity where a whole number is needed -/
  | infinite
  /-- no number at all where a whole number is needed -/
  | undefined
  /-- a whole number beyond the largest double -/
  | beyondFloat
deriving Repr, DecidableEq

/-- the groups of faults that a reader of a report tells apart -/
inductive FaultClass where
  | wrongType | wrongValue | missingAttribute | overflow
deriving Repr, DecidableEq

namespace Fault

/-- the group of a fault -/
def group : Fault → FaultClass
  | notIterable _ | notMapping _ | unhashable _ | unhashableRange | noPositions _ | incomparable _ _
  | notJoinable _ _ | noInteger _ | noNumber _ | notAddable _ | notDays _ => .wrongType
  | badInteger _ | badDigits _ _ | badDate _ | badNumber _ | hugeInteger _ | undefined => .wrongValue
  | lacks _ _ => .missingAttribute
  | infinite | beyondFloat => .overflow

/-- the most characters of a quoted number in a wording -/
def quoteLimit : Nat := 200

/-- a text between quotes, cut off if it is long -/
def cutQuoted (s : String) : String := String.ofList ((Text.quoted s).toList.take quoteLimit)

/-- the wording of a fault -/
def message : Fault → String
  | notIterable k => s!"'{k.name}' object is not iterable"
  | notMapping k => s!"'{k.name}' object is not a mapping"
  | unhashable k => s!"unhashable type: '{k.name}'"
  | unhashableRange => "unhashable type: 'slice'"
  | noPositions k => s!"'{k.name}' object is not subscriptable"
  | lacks k what => s!"'{k.name}' object has no attribute '{what}'"
  | incomparable l r => s!"'<' not supported between instances of '{l.name}' and '{r.name}'"
  | notJoinable n k =>
    s!"sequence item {Decimal.digitText n}: expected str instance, {k.name} found"
  | noInteger k =>
    s!"int() argument must be a string, a bytes-like object or a real number, not '{k.name}'"
  | noNumber k => s!"float() argument must be a string or a real number, not '{k.name}'"
  | notAddable k => s!"unsupported operand type(s) for +: 'float' and '{k.name}'"
  | notDays k => s!"unsupported type for timedelta days component: {k.name}"
  | badInteger s => s!"invalid literal for int() with base 10: {cutQuoted s}"
  | badDigits base s =>
    s!"invalid literal for int() with base {Decimal.digitText base}: {cutQuoted s}"
  | badDate s => s
  | badNumber s => s!"could not convert string to float: {Text.quoted s}"
  | hugeInteger n =>
    "Exceeds the limit (4300 digits) for integer string conversion: value has "
      ++ Decimal.digitText n ++ " digits; use sys.set_int_max_str_digits() to increase the limit"
  | infinite => "cannot convert float infinity to integer"
  | undefined => "cannot convert float NaN to integer"
  | beyondFloat => "int too large to convert to float"

end Fault

end LintLedger
