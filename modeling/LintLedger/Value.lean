import LintLedger.Calendar
import LintLedger.Decimal.Binary

/-!
# Values

What tool reports, settings files and records hold before anyone has looked at their types.  A map
keeps its entries in the order in which their keys first came.
-/

namespace LintLedger

/-- a value of no fixed type -/
inductive Value where
  | null
  | bool (b : Bool)
  | int (i : Int)
  | float (x : Float)
  | text (s : String)
  | date (d : CivilDate)
  | time (t : CivilTime)
  | list (items : List Value)
  | map (entries : List (Value × Value))
deriving Inhabited

/-- the kinds of value -/
inductive Kind where
  | null | bool | int | float | text | date | time | list | map
deriving Repr, DecidableEq

/-- the name of a kind in messages -/
def Kind.name : Kind → String
  | .null => "NoneType"
  | .bool => "bool"
  | .int => "int"
  | .float => "float"
  | .text => "str"
  | .date => "datetime.date"
  | .time => "datetime.datetime"
  | .list => "list"
  | .map => "dict"

namespace Value

/-- the kind of a value -/
def kind : Value → Kind
  | null => .null
  | bool _ => .bool
  | int _ => .int
  | float _ => .float
  | text _ => .text
  | date _ => .date
  | time _ => .time
  | list _ => .list
  | map _ => .map

/-- whether a value counts as yes: all but null, false, zero and the empty text, list and map -/
def truthy : Value → Bool
  | null => false
  | bool b => b
  | int i => i != 0
  | float x => x != 0
  | text s => !s.isEmpty
  | date _ => true
  | time _ => true
  | list xs => !xs.isEmpty
  | map es => !es.isEmpty

/-- the text of an optional value -/
def ofText? : Option String → Value
  | none => null
  | some s => text s

/-- the whole number of an optional value -/
def ofInt? : Option Int → Value
  | none => null
  | some i => int i

/-- a map from texts -/
def record (fields : List (String × Value)) : Value := map (fields.map fun f => (text f.1, f.2))

/-- the entry of a map under a text -/
def find? (entries : List (Value × Value)) (name : String) : Option Value :=
  entries.findSome? fun e =>
    match e.1 with
    | text s => if s = name then some e.2 else none
    | _ => none

/-- the exact value of a number; a yes counts as one and a no as zero -/
def number? : Value → Option Rat
  | bool b => some (if b then 1 else 0)
  | int i => some (i : Rat)
  | float x => Decimal.rational? x
  | _ => none

end Value

end LintLedger
