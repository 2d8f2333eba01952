import LintLedger.Value
import LintLedger.Decimal.Format
import LintLedger.Text.Quoted

/-!
# Values as text

A value has two texts: as it stands in a sentence (`display`), where a text is itself, and as it is
quoted (`quote`), where a text stands between quotes.  Inside a list or a map all is quoted.
-/

namespace LintLedger.Value

/-- texts between two marks, separated by commas -/
def enclosed (left right : String) (parts : List String) : String :=
  left ++ String.intercalate ", " parts ++ right

/-- numbers as the arguments of a call -/
def arguments (ns : List Nat) : String :=
  enclosed "(" ")" (ns.map fun n => Decimal.digitText n)

mutual

/-- a value as it is quoted -/
def quote : Value → String
  | null => "None"
  | bool b => if b then "True" else "False"
  | int i => Decimal.withSign (i < 0) (Decimal.digitText i.natAbs)
  | float x => Decimal.shortest x
  | text s => Text.quoted s
  | date d => "datetime.date" ++ arguments [d.year, d.month, d.day]
  | time t =>
    "datetime.datetime" ++ arguments
      ([t.date.year, t.date.month, t.date.day, t.hour, t.minute]
        ++ (if t.second = 0 ∧ t.micros = 0 then [] else [t.second])
        ++ (if t.micros = 0 then [] else [t.micros]))
  | list xs => enclosed "[" "]" (quoteAll xs)
  | map es => enclosed "\x7b" "\x7d" (quoteEntries es)

/-- the items of a list as they are quoted -/
def quoteAll : List Value → List String
  | [] => []
  | x :: xs => quote x :: quoteAll xs

/-- the entries of a map as they are quoted -/
def quoteEntries : List (Value × Value) → List String
  | [] => []
  | (k, v) :: es => (quote k ++ ": " ++ quote v) :: quoteEntries es

end

/-- a value as it stands in a sentence -/
def display : Value → String
  | text s => s
  | date d => d.text
  | time t => t.textWith " "
  | v => quote v

end LintLedger.Value
