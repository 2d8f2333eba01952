import LintLedger.Decimal.Format
import LintLedger.Value

/-!
# Complaints about settings

Why a value cannot be taken for a setting.  A complaint says where the value stands and what was
expected there; all complaints about a file are collected before any is reported.
-/

namespace LintLedger.Settings

/-- a bound that a number has to keep -/
inductive Bound where
  | above (n : Nat)
  | atLeast (n : Nat)
deriving Repr, DecidableEq

/-- what was expected of a value -/
inductive Expectation where
  | bool
  | boolReadable
  | int
  | intReadable
  | intWhole
  | intShort
  | finite
  | float
  | floatReadable
  | text
  | map
  | group (name : String)
  | strategy
  | bound (b : Bound)
deriving Repr, DecidableEq

namespace Expectation

/-- the short name of an expectation -/
def code : Expectation → String
  | bool => "bool_type"
  | boolReadable => "bool_parsing"
  | int => "int_type"
  | intReadable => "int_parsing"
  | intWhole => "int_from_float"
  | intShort => "int_parsing_size"
  | finite => "finite_number"
  | float => "float_type"
  | floatReadable => "float_parsing"
  | text => "string_type"
  | map => "dict_type"
  | group _ => "model_type"
  | strategy => "literal_error"
  | bound (.above _) => "greater_than"
  | bound (.atLeast _) => "greater_than_equal"

/-- the wording of an expectation -/
def message : Expectation → String
  | bool => "Input should be a valid boolean"
  | boolReadable => "Input should be a valid boolean, unable to interpret input"
  | int => "Input should be a valid integer"
  | intReadable => "Input should be a valid integer, unable to parse string as an integer"
  | intWhole => "Input should be a valid integer, got a number with a fractional part"
  | intShort => "Unable to parse input string as an integer, exceeded maximum size"
  | finite => "Input should be a finite number"
  | float => "Input should be a valid number"
  | floatReadable => "Input should be a valid number, unable to parse string as a number"
  | text => "Input should be a valid string"
  | map => "Input should be a valid dictionary"
  | group name => s!"Input should be a valid dictionary or instance of {name}"
  | strategy => "Input should be 'exact', 'location' or 'similar'"
  | bound (.above n) => s!"Input should be greater than {Decimal.digitText n}"
  | bound (.atLeast n) => s!"Input should be greater than or equal to {Decimal.digitText n}"

end Expectation

/-- an expectation that was not met, and where -/
structure Complaint where
  place : List Value
  expected : Expectation

/-- a setting, or all that is wrong with it -/
abbrev Checked (α : Type) := Except (List Complaint) α

/-- a complaint about the place `place` -/
def complain {α : Type} (place : List Value) (expected : Expectation) : Checked α :=
  .error [⟨place, expected⟩]

/-- two settings, or all that is wrong with either -/
def both {α β : Type} : Checked α → Checked β → Checked (α × β)
  | .ok a, .ok b => .ok (a, b)
  | .ok _, .error es => .error es
  | .error es, .ok _ => .error es
  | .error es, .error fs => .error (es ++ fs)

/-- a function of a setting together with a further setting -/
def andAlso {α β : Type} (f : Checked (α → β)) (a : Checked α) : Checked β :=
  (both f a).map fun p => p.1 p.2

/-- a list of settings, or all that is wrong with any -/
def collect {α : Type} : List (Checked α) → Checked (List α)
  | [] => .ok []
  | a :: rest => (both a (collect rest)).map fun p => p.1 :: p.2

end LintLedger.Settings
