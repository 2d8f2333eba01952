import LintLedger.Value.Fault
import LintLedger.Decimal.Read

/-!
# Values as numbers and rows

Reading a value as a whole number, as a double or as a row of items, with the fault that arises
when it cannot be read so.
-/

namespace LintLedger

/-- the most digits that a written whole number may have -/
def digitLimit : Nat := 4300

/-- the whole number that a text writes -/
def integerOfText (s : String) : Except Fault Int :=
  match Decimal.wholeDigits? s.toList with
  | none => .error (.badInteger s)
  | some (negative, ds) =>
    if digitLimit < ds.length then .error (.hugeInteger ds.length)
    else .ok (Decimal.signed negative (Text.digitsValue ds))

/-- the whole number that a run of digits writes -/
def integerOfDigits (ds : List Char) : Except Fault Int :=
  if digitLimit < ds.length then .error (.hugeInteger ds.length)
  else .ok (Text.digitsValue ds)

/-- a double without its fraction -/
def integerOfFloat (x : Float) : Except Fault Int :=
  match Decimal.rational? x with
  | some q => .ok (Decimal.truncate q)
  | none => .error (if x.isNaN then .undefined else .infinite)

namespace Value

/-- the whole number of a value: a number without its fraction, or what a text writes -/
def toInteger : Value → Except Fault Int
  | bool b => .ok (if b then 1 else 0)
  | int i => .ok i
  | float x => integerOfFloat x
  | text s => integerOfText s
  | v => .error (.noInteger v.kind)

/-- the double of a value: a number, or what a text writes -/
def toFloat : Value → Except Fault Float
  | bool b => .ok (if b then 1 else 0)
  | int i => match Decimal.floatOfInt? i with
    | some x => .ok x
    | none => .error .beyondFloat
  | float x => .ok x
  | text s => match Decimal.float? s with
    | some x => .ok x
    | none => .error (.badNumber s)
  | v => .error (.noNumber v.kind)

/-- the items of a value: of a list, of a map its keys, of a text its characters -/
def items : Value → Except Fault (List Value)
  | list xs => .ok xs
  | map es => .ok (es.map Prod.fst)
  | text s => .ok (s.toList.map fun c => text (String.singleton c))
  | v => .error (.notIterable v.kind)

/-- the entries of a map -/
def entries : Value → Except Fault (List (Value × Value))
  | map es => .ok es
  | v => .error (.notMapping v.kind)

/-- the entry of a value under a name; only a map can be asked -/
def get (v : Value) (name : String) : Except Fault (Option Value) :=
  match v with
  | map es => .ok (find? es name)
  | _ => .error (.lacks v.kind "get")

/-- a text without the blanks at its ends, and nothing if only blanks were there -/
def stripped : Value → Except Fault Value
  | null => .ok null
  | text s =>
    let t := Text.strip s
    .ok (if t.isEmpty then null else text t)
  | v => .error (.lacks v.kind "strip")

end Value

end LintLedger
