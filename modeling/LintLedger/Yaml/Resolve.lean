import LintLedger.Text.Split
import LintLedger.Value.Convert
import LintLedger.Yaml.Cursor

/-!
# Plain scalars

What a plain scalar means: a yes or a no, a number, nothing, a day or a time, or just a text.  Whole
numbers are written in base two, eight (a zero in front), ten, sixteen or sixty (with colons); a
double needs a point.
-/

namespace LintLedger.Yaml

/-- what the form of a plain scalar says that it is -/
inductive Form where
  | bool | float | int | merge | null | time | equals | text
deriving Repr, DecidableEq

/-- the words that mean yes -/
def yesWords : List String :=
  ["yes", "Yes", "YES", "true", "True", "TRUE", "on", "On", "ON"]

/-- the words that mean no -/
def noWords : List String :=
  ["no", "No", "NO", "false", "False", "FALSE", "off", "Off", "OFF"]

/-- the words that mean nothing -/
def nullWords : List String := ["~", "null", "Null", "NULL", ""]

/-- a digit of ASCII or an underscore -/
def isDigitMark (c : Char) : Bool := c.isDigit || c = '_'

/-- a digit in base sixteen or an underscore -/
def isHexMark (c : Char) : Bool :=
  isDigitMark c || ('a' ≤ c && c ≤ 'f') || ('A' ≤ c && c ≤ 'F')

/-- a character of a run that must not be empty -/
def allOf (p : Char → Bool) (cs : List Char) : Bool := !cs.isEmpty && cs.all p

/-- a run of characters without the sign in front -/
def unsigned : List Char → List Char
  | '-' :: rest => rest
  | '+' :: rest => rest
  | cs => cs

/-- a group of one or two digits below sixty -/
def isSixty : List Char → Bool
  | [a] => a.isDigit
  | [a, b] => '0' ≤ a && a ≤ '5' && b.isDigit
  | _ => false

/-- whether a run is of the form of a whole number -/
def isIntForm (cs : List Char) : Bool :=
  match unsigned cs with
  | '0' :: 'b' :: ds => allOf (fun c => c = '0' || c = '1' || c = '_') ds
  | '0' :: 'x' :: ds => allOf isHexMark ds
  | '0' :: ds => ds.all fun c => ('0' ≤ c && c ≤ '7') || c = '_'
  | d :: ds =>
    d.isDigit &&
      (match Text.pieces ':' ds with
        | [whole] => whole.all isDigitMark
        | whole :: groups => whole.all isDigitMark && groups.all isSixty
        | [] => false)
  | [] => false

/-- an exponent with its sign, or nothing -/
def isExponentForm : List Char → Bool
  | [] => true
  | e :: sign :: ds =>
    (e = 'e' || e = 'E') && (sign = '+' || sign = '-') && allOf Char.isDigit ds
  | _ => false

/-- whether a run is of the form of a double -/
def isFloatForm (cs : List Char) : Bool :=
  let body := unsigned cs
  let whole := body.takeWhile fun c => isDigitMark c
  let fraction := body.dropWhile fun c => isDigitMark c
  let plainForm :=
    match fraction with
    | '.' :: rest =>
      if whole.isEmpty then
        body = cs && rest.head?.any Char.isDigit
          && isExponentForm (rest.dropWhile isDigitMark)
      else whole.head?.any Char.isDigit && isExponentForm (rest.dropWhile isDigitMark)
    | _ => false
  let sixtyForm :=
    match Text.pieces ':' body with
    | first :: second :: more =>
      let groups := second :: more
      let last := groups.getLastD []
      first.head?.any Char.isDigit && first.all isDigitMark
        && groups.dropLast.all isSixty && isSixty (last.takeWhile (· != '.'))
        && last.contains '.' && ((last.dropWhile (· != '.')).drop 1).all isDigitMark
    | _ => false
  let word := String.ofList body
  plainForm || sixtyForm || [".inf", ".Inf", ".INF"].contains word
    || (body = cs && [".nan", ".NaN", ".NAN"].contains word)

/-- the parts of a day or a time as they are written -/
structure TimeParts where
  year : List Char
  month : List Char
  day : List Char
  clock : Option (List Char × List Char × List Char)
  fraction : List Char
  zone : Option (Bool × List Char × List Char)

/-- a run of at least `least` and at most `most` digits in front, and what follows it -/
def someDigits (least most : Nat) (cs : List Char) : Option (List Char × List Char) :=
  let ds := (cs.take most).takeWhile Char.isDigit
  if ds.length < least then none else some (ds, cs.drop ds.length)

/-- what follows a character that has to stand in front -/
def mark (c : Char) : List Char → Option (List Char)
  | [] => none
  | d :: rest => if d = c then some rest else none

/-- the distance from universal time behind a time: absent, none, or hours and minutes -/
def zoneForm (cs : List Char) : Option (Option (Bool × List Char × List Char)) :=
  match cs.dropWhile isSpace with
  | [] => if cs.isEmpty then some none else none
  | ['Z'] => some (some (false, ['0'], []))
  | sign :: rest =>
    if sign = '+' || sign = '-' then do
      let (hours, rest) ← someDigits 1 2 rest
      match rest with
      | [] => return some (sign = '-', hours, [])
      | ':' :: rest => do
        let (minutes, rest) ← someDigits 2 2 rest
        if rest.isEmpty then return some (sign = '-', hours, minutes) else none
      | _ => none
    else none

/-- what follows the mark between day and time -/
def clockMark : List Char → Option (List Char)
  | 'T' :: rest | 't' :: rest => some rest
  | c :: rest => if isSpace c then some (rest.dropWhile isSpace) else none
  | [] => none

/-- the parts of a time of a day -/
def clockForm (year month day cs : List Char) : Option TimeParts := do
  let cs ← clockMark cs
  let (hour, cs) ← someDigits 1 2 cs
  let cs ← mark ':' cs
  let (minute, cs) ← someDigits 2 2 cs
  let cs ← mark ':' cs
  let (second, cs) ← someDigits 2 2 cs
  let (fraction, cs) := match cs with
    | '.' :: rest => (rest.takeWhile Char.isDigit, rest.dropWhile Char.isDigit)
    | _ => ([], cs)
  let zone ← zoneForm cs
  return ⟨year, month, day, some (hour, minute, second), fraction, zone⟩

/-- the parts of a day or a time, if a run is of that form -/
def timeForm (cs : List Char) : Option TimeParts := do
  let (year, cs) ← someDigits 4 4 cs
  let cs ← mark '-' cs
  let (month, cs) ← someDigits 1 2 cs
  let cs ← mark '-' cs
  let (day, cs) ← someDigits 1 2 cs
  if cs.isEmpty then
    if month.length = 2 && day.length = 2 then return ⟨year, month, day, none, [], none⟩ else none
  else clockForm year month day cs

/-- what the form of a plain scalar says that it is -/
def formOf (s : String) : Form :=
  let cs := s.toList
  if yesWords.contains s || noWords.contains s then .bool
  else if isFloatForm cs then .float
  else if isIntForm cs then .int
  else if s = "<<" then .merge
  else if nullWords.contains s then .null
  else if (timeForm cs).isSome then .time
  else if s = "=" then .equals
  else .text

/-- the whole number that digits write in a base -/
def inBase (base : Nat) (ds : List Char) : Except Fault Int :=
  let value? (c : Char) : Option Nat :=
    if c.isDigit then some (c.toNat - 48)
    else if 'a' ≤ c && c ≤ 'f' then some (c.toNat - 87)
    else none
  if ds.isEmpty || ds.any fun c => !(value? c).any (· < base) then
    .error (.badDigits base (String.ofList ds))
  else .ok (ds.foldl (fun acc c => acc * base + (value? c).getD 0) 0 : Nat)

/-- the whole number that a scalar writes -/
def readInt (s : String) : Except Fault Int := do
  let cs := s.toList.filter (· != '_')
  let (negative, body) := Decimal.splitSign cs
  let n ← match body with
    | ['0'] => .ok 0
    | '0' :: 'b' :: ds => inBase 2 ds
    | '0' :: 'x' :: ds => inBase 16 (ds.map Char.toLower)
    | '0' :: _ => inBase 8 body
    | _ =>
      if body.contains ':' then do
        let groups ← (Text.pieces ':' body).mapM fun g => integerOfText (String.ofList g)
        return groups.foldl (fun acc g => acc * 60 + g) 0
      else integerOfText (String.ofList body)
  return if negative then -n else n

/-- the double that a group of a number in base sixty writes -/
def sixtyPart (g : List Char) : Except Fault Float :=
  match Decimal.float? (String.ofList g) with
  | some x => .ok x
  | none => .error (.badNumber (String.ofList g))

/-- the double that a scalar writes -/
def readFloat (s : String) : Except Fault Float := do
  let cs := (s.toList.filter (· != '_')).map Char.toLower
  let (negative, body) := Decimal.splitSign cs
  let sign : Float := if negative then -1 else 1
  if body = ".inf".toList then
    return Float.ofBits (if negative then 0xfff0000000000000 else 0x7ff0000000000000)
  else if body = ".nan".toList then return Float.ofBits 0x7ff8000000000000
  else if body.contains ':' then
    let groups ← (Text.pieces ':' body).mapM sixtyPart
    let sum := (groups.reverse.foldl
      (fun (acc : Float × Float) g => (acc.1 + g * acc.2, acc.2 * 60)) (0, 1)).1
    return sign * sum
  else return sign * (← sixtyPart body)

/-- a part of a date that lies within its bounds -/
def within (low high : Nat) (what : String) (ds : List Char) : Except Fault Nat :=
  let n := Text.digitsValue ds
  if low ≤ n && n ≤ high then .ok n else .error (.badDate what)

/-- the day that a scalar writes -/
def dateOf (p : TimeParts) : Except Fault CivilDate := do
  let year ← within 1 9999
    ("year " ++ Decimal.digitText (Text.digitsValue p.year) ++ " is out of range") p.year
  let month ← within 1 12 "month must be in 1..12" p.month
  let day ← within 1 (monthLength year month) "day is out of range for month" p.day
  return ⟨year, month, day⟩

/-- the minutes by which a time is ahead of universal time -/
def offsetOf (zone : Bool × List Char × List Char) : Int :=
  Decimal.signed zone.1 (Text.digitsValue zone.2.1 * 60 + Text.digitsValue zone.2.2)

/-- the day or time that a scalar writes -/
def readTime (p : TimeParts) : Except Fault Value := do
  let date ← dateOf p
  match p.clock with
  | none => return .date date
  | some (hour, minute, second) =>
    let hour ← within 0 23 "hour must be in 0..23" hour
    let minute ← within 0 59 "minute must be in 0..59" minute
    let second ← within 0 59 "second must be in 0..59" second
    let micros := Text.digitsValue ((p.fraction ++ List.replicate 6 '0').take 6)
    return .time ⟨date, hour, minute, second, micros, p.zone.map offsetOf⟩

end LintLedger.Yaml
