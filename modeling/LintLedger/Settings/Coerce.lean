import LintLedger.Settings.Complaint
import LintLedger.Decimal.Read
import LintLedger.Value.Show

/-!
# Reading single settings

A setting takes more than its own type: a number may be written as a text, a yes as a word or a
number.  What is taken, and what is complained of otherwise, is said here for each type.
-/

namespace LintLedger.Settings

open LintLedger.Decimal (splitSign signed)

/-- a blank at the ends of a written number: white space, but no separator `U+001C`–`U+001F` -/
def isSpace (c : Char) : Bool := Text.isBlank c && !(28 ≤ c.toNat && c.toNat ≤ 31)

/-- a run of characters without the blanks at its ends -/
def trimSpace (cs : List Char) : List Char :=
  ((cs.dropWhile isSpace).reverse.dropWhile isSpace).reverse

/-- the words that stand for a yes or a no, in any case -/
def boolWord? (s : String) : Option Bool :=
  let w := String.ofList (s.toList.map Char.toLower)
  if ["1", "on", "t", "true", "y", "yes"].contains w then some true
  else if ["0", "off", "f", "false", "n", "no"].contains w then some false
  else none

/-- whether a whole number has at most 64 bits, its sign counted -/
def isWord (i : Int) : Bool := -(Decimal.twoTo 63 : Int) ≤ i && i < Decimal.twoTo 63

/-- a whole number that stands for a yes or a no; only one of 64 bits is looked at -/
def boolOfInt (place : List Value) (i : Int) : Checked Bool :=
  if i = 0 then .ok false
  else if i = 1 then .ok true
  else if isWord i then complain place .boolReadable
  else complain place .bool

/-- a yes or a no -/
def readBool (place : List Value) : Value → Checked Bool
  | .bool b => .ok b
  | .int i => boolOfInt place i
  | .float x => match Decimal.rational? x with
    | some q => if q.den = 1 then boolOfInt place q.num else complain place .bool
    | none => complain place .bool
  | .text s => match boolWord? s with
    | some b => .ok b
    | none => complain place .boolReadable
  | _ => complain place .bool

/-- the digits of a written whole number: a point with zeros may follow them -/
def wholeDigits? (cs : List Char) : Option (Bool × List Char) :=
  let (negative, body) := splitSign (trimSpace cs)
  let whole := body.takeWhile (· != '.')
  let fraction := body.dropWhile (· != '.')
  if fraction.drop 1 |>.all (· == '0') then
    match Decimal.dropUnderscores whole with
    | some ds => if !ds.isEmpty && ds.all Char.isDigit then some (negative, ds) else none
    | none => none
  else none

/-- a whole number; a double has to lie within 64 bits -/
def readInt (place : List Value) : Value → Checked Int
  | .bool b => .ok (if b then 1 else 0)
  | .int i => .ok i
  | .float x => match Decimal.rational? x with
    | some q =>
      if q.den ≠ 1 then complain place .intWhole
      else if q.num.natAbs < Decimal.twoTo 63 then .ok q.num
      else complain place .intShort
    | none => complain place .finite
  | .text s => match wholeDigits? s.toList with
    | some (negative, ds) =>
      if 4300 < ds.length then complain place .intShort
      else .ok (signed negative (Text.digitsValue ds))
    | none => complain place .intReadable
  | _ => complain place .int

/-- a written number without its underscores, none of which may stand at an end or be doubled -/
def plainNumber? (cs : List Char) : Option (List Char) :=
  if cs.all (fun c => c.toNat < 128) then
    if cs.contains '_' then
      let inner := (cs.zip (cs.drop 1)).all fun p => !(p.1 == '_' && p.2 == '_')
      if inner && cs.head? != some '_' && cs.getLast? != some '_' then
        some (cs.filter (· != '_'))
      else none
    else some cs
  else none

/-- a number -/
def readFloat (place : List Value) : Value → Checked Float
  | .bool b => .ok (if b then 1 else 0)
  | .int i => match Decimal.floatOfInt? i with
    | some x => .ok x
    | none => complain place .float
  | .float x => .ok x
  | .text s =>
    match (plainNumber? (trimSpace s.toList)).bind fun cs => Decimal.float? (String.ofList cs) with
    | some x => .ok x
    | none => complain place .floatReadable
  | _ => complain place .float

/-- a text; nothing else is taken for one -/
def readText (place : List Value) : Value → Checked String
  | .text s => .ok s
  | _ => complain place .text

/-- a whole number of at least `least` -/
def readNatFrom (least : Nat) (place : List Value) (v : Value) : Checked Nat :=
  match readInt place v with
  | .error es => .error es
  | .ok i => if least ≤ i then .ok i.toNat else complain place (.bound (.atLeast least))

/-- a number that is not zero or below -/
def readPositive (place : List Value) (v : Value) : Checked Float :=
  match readFloat place v with
  | .error es => .error es
  | .ok x => if x ≤ 0 then complain place (.bound (.above 0)) else .ok x

/-- a number that is not negative -/
def readUnsigned (place : List Value) (v : Value) : Checked Float :=
  match readFloat place v with
  | .error es => .error es
  | .ok x => if x < 0 then complain place (.bound (.atLeast 0)) else .ok x

/-- a setting that may be absent -/
def readOptional {α : Type} (read : List Value → Value → Checked α) (place : List Value) :
    Value → Checked (Option α)
  | .null => .ok none
  | v => (read place v).map some

/-- the part of a place that a key stands for: texts and whole numbers of 64 bits as they are -/
def placeOfKey : Value → Value
  | .text s => .text s
  | .int i => if isWord i then .int i else .text (Value.int i).quote
  | .bool b => .int (if b then 1 else 0)
  | v => .text v.quote

/-- the entries of a map whose keys are texts, each read by `read` -/
def readEntries {α : Type} (read : List Value → Value → Checked α) (place : List Value) :
    Value → Checked (List (String × α))
  | .map es => collect (es.map fun e =>
      let inner := place ++ [placeOfKey e.1]
      both (match e.1 with
        | .text s => .ok s
        | _ => complain (inner ++ [.text "[key]"]) .text) (read inner e.2))
  | _ => complain place .map

/-- a setting of a group, or its default where the group does not name it -/
def readField {α : Type} (entries : List (Value × Value)) (place : List Value) (name : String)
    (default : α) (read : List Value → Value → Checked α) : Checked α :=
  match Value.find? entries name with
  | some v => read (place ++ [.text name]) v
  | none => .ok default

/-- the entries of a group of settings -/
def readGroup {α : Type} (name : String)
    (read : List Value → List (Value × Value) → Checked α) (place : List Value) :
    Value → Checked α
  | .map es => read place es
  | _ => complain place (.group name)

end LintLedger.Settings
