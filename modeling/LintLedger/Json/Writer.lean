import LintLedger.Value.Show
import LintLedger.Json.Reader

/-!
# Writing JSON

A value as a JSON text without blanks.  A double is written in the fewest digits that read back;
quotes, backslashes and controls inside a text are escaped, all else is written as it is.  Infinities
are words that only a lenient reader knows; `strict` makes texts of them.
-/

namespace LintLedger.Json

/-- a character as it stands inside a text -/
def escape (c : Char) : List Char :=
  if c = '"' || c = '\\' then ['\\', c]
  else if c.toNat < 0x20 || c = '\x7f' then '\\' :: 'u' :: Text.hexDigits 4 c.toNat
  else [c]

/-- a text between quotes -/
def writeText (s : String) : String := String.ofList ('"' :: s.toList.flatMap escape ++ ['"'])

/-- a double as a number, or the word for what is no number -/
def writeFloat (x : Float) : String :=
  match Decimal.reading x with
  | .finite _ _ _ => Decimal.shortest x
  | .infinite negative => Decimal.withSign negative "Infinity"
  | .undefined => "NaN"

/-- a value that is no list and no map; days and times are written as texts -/
def writeScalar : Value → String
  | .null => "null"
  | .bool b => if b then "true" else "false"
  | .int i => Decimal.withSign (i < 0) (Decimal.digitText i.natAbs)
  | .float x => writeFloat x
  | .text s => writeText s
  | .date d => writeText d.text
  | .time t => writeText (t.textWith "T")
  | _ => ""

/-- the key of an entry, which has to be a text -/
def writeKey : Value → String
  | .text s => writeText s
  | v => writeText (writeScalar v)

mutual

/-- a value as a JSON text -/
def write : Value → String
  | .list xs => "[" ++ String.intercalate "," (writeAll xs) ++ "]"
  | .map es => "\x7b" ++ String.intercalate "," (writeEntries es) ++ "\x7d"
  | v => writeScalar v

/-- the elements of a list as JSON texts -/
def writeAll : List Value → List String
  | [] => []
  | x :: xs => write x :: writeAll xs

/-- the members of a map as JSON texts -/
def writeEntries : List (Value × Value) → List String
  | [] => []
  | (k, v) :: es => (writeKey k ++ ":" ++ write v) :: writeEntries es

end

mutual

/-- a value in which what is no number for a strict reader stands as a text -/
def strict : Value → Value
  | .float x =>
    match Decimal.reading x with
    | .finite _ _ _ => .float x
    | _ => .text (Decimal.shortest x)
  | .list xs => .list (strictAll xs)
  | .map es => .map (strictEntries es)
  | v => v

/-- the elements of a list for a strict reader -/
def strictAll : List Value → List Value
  | [] => []
  | v :: rest => strict v :: strictAll rest

/-- the members of a map for a strict reader -/
def strictEntries : List (Value × Value) → List (Value × Value)
  | [] => []
  | (k, v) :: rest => (k, strict v) :: strictEntries rest

end

end LintLedger.Json
