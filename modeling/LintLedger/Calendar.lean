/-!
# Dates and times

The calendar that runs back without change from the present to the year 1, and instants counted in
microseconds from its first midnight.  An instant is written `YYYY-MM-DDTHH:MM:SS`, with six more
digits only if there are microseconds to tell.
-/

namespace LintLedger

/-- a day of the calendar -/
structure CivilDate where
  year : Nat
  month : Nat
  day : Nat
deriving Repr, DecidableEq, Inhabited

/-- a time of a day, with its distance from universal time in minutes if that is known -/
structure CivilTime where
  date : CivilDate
  hour : Nat
  minute : Nat
  second : Nat
  micros : Nat
  offset : Option Int
deriving Repr, DecidableEq, Inhabited

/-- a year with a 29 February -/
def isLeapYear (y : Nat) : Bool := y % 4 == 0 && (y % 100 != 0 || y % 400 == 0)

/-- the number of days of a month -/
def monthLength (y m : Nat) : Nat :=
  if m = 2 then (if isLeapYear y then 29 else 28)
  else if m = 4 || m = 6 || m = 9 || m = 11 then 30
  else 31

/-- the number of days before 1 January of a year, from 1 January of year 1 -/
def daysBeforeYear (y : Nat) : Nat :=
  let p := y - 1
  p * 365 + p / 4 - p / 100 + p / 400

/-- the number of days of a year before a month -/
def daysBeforeMonth (y m : Nat) : Nat :=
  (List.range (m - 1)).foldl (fun acc i => acc + monthLength y (i + 1)) 0

/-- the number of days from 1 January of year 1 to a day -/
def CivilDate.dayNumber (d : CivilDate) : Nat :=
  daysBeforeYear d.year + daysBeforeMonth d.year d.month + (d.day - 1)

/-- the month and day that lie `n` days after 1 January, tried from month `m` on -/
def monthOfDay (y : Nat) : Nat → Nat → Nat → Nat × Nat
  | 0, m, n => (m, n + 1)
  | fuel + 1, m, n =>
    if n < monthLength y m then (m, n + 1) else monthOfDay y fuel (m + 1) (n - monthLength y m)

/-- the day that lies `n` days after 1 January of year 1 -/
def CivilDate.ofDayNumber (n : Nat) : CivilDate :=
  let guess := n * 400 / 146097 + 1
  let year :=
    if n < daysBeforeYear guess then guess - 1
    else if daysBeforeYear (guess + 1) ≤ n then guess + 1 else guess
  let (month, day) := monthOfDay year 11 1 (n - daysBeforeYear year)
  ⟨year, month, day⟩

/-- a number with at least `width` digits -/
def padded (width n : Nat) : String :=
  let ds := Nat.toDigits 10 n
  String.ofList (List.replicate (width - ds.length) '0' ++ ds)

/-- a day, written `YYYY-MM-DD` -/
def CivilDate.text (d : CivilDate) : String :=
  padded 4 d.year ++ "-" ++ padded 2 d.month ++ "-" ++ padded 2 d.day

/-- the time of a day, written with a separator behind the day -/
def CivilTime.textWith (separator : String) (t : CivilTime) : String :=
  let clock := padded 2 t.hour ++ ":" ++ padded 2 t.minute ++ ":" ++ padded 2 t.second
  let fraction := if t.micros = 0 then "" else "." ++ padded 6 t.micros
  let zone :=
    match t.offset with
    | none => ""
    | some m =>
      (if m < 0 then "-" else "+") ++ padded 2 (m.natAbs / 60) ++ ":" ++ padded 2 (m.natAbs % 60)
  t.date.text ++ separator ++ clock ++ fraction ++ zone

/-- a moment of universal time, in microseconds since the first midnight of the year 1 -/
structure Instant where
  micros : Nat
deriving Repr, DecidableEq, Inhabited

namespace Instant

/-- the number of microseconds of a day -/
def dayLength : Nat := 86400000000

/-- the first instant that lies behind the year 9999 -/
def limit : Nat := daysBeforeYear 10000 * dayLength

/-- the instant of a time that knows no offset -/
def ofCivil (t : CivilTime) : Instant :=
  ⟨t.date.dayNumber * dayLength
    + ((t.hour * 60 + t.minute) * 60 + t.second) * 1000000 + t.micros⟩

/-- the time of an instant -/
def toCivil (i : Instant) : CivilTime :=
  let rest := i.micros % dayLength
  let seconds := rest / 1000000
  { date := CivilDate.ofDayNumber (i.micros / dayLength)
    hour := seconds / 3600
    minute := seconds / 60 % 60
    second := seconds % 60
    micros := rest % 1000000
    offset := none }

/-- an instant with `T` between day and time -/
def text (i : Instant) : String := i.toCivil.textWith "T"

/-- an instant with a blank between day and time -/
def textSpaced (i : Instant) : String := i.toCivil.textWith " "

/-- an instant moved by a number of microseconds, if that stays within the years 1 to 9999 -/
def shift? (i : Instant) (delta : Int) : Option Instant :=
  let n : Int := i.micros + delta
  if 0 ≤ n ∧ n < limit then some ⟨n.toNat⟩ else none

/-- a run of `n` digits of ASCII and what follows it -/
def takeNumber (n : Nat) (cs : List Char) : Option (Nat × List Char) :=
  let ds := cs.take n
  if ds.length = n ∧ ds.all Char.isDigit then
    some (ds.foldl (fun acc c => acc * 10 + (c.toNat - 48)) 0, cs.drop n)
  else none

/-- a character that has to stand next -/
def takeMark (marks : List Char) : List Char → Option (List Char)
  | [] => none
  | c :: rest => if marks.contains c then some rest else none

/-- a day or a time as `text` writes it; the time, its seconds and their fraction may be missing -/
def parse? (s : String) : Option Instant := do
  let (year, cs) ← takeNumber 4 s.toList
  let cs ← takeMark ['-'] cs
  let (month, cs) ← takeNumber 2 cs
  let cs ← takeMark ['-'] cs
  let (day, cs) ← takeNumber 2 cs
  let date : CivilDate := ⟨year, month, day⟩
  if cs.isEmpty then
    return ofCivil ⟨date, 0, 0, 0, 0, none⟩
  let cs ← takeMark ['T', ' '] cs
  let (hour, cs) ← takeNumber 2 cs
  let cs ← takeMark [':'] cs
  let (minute, cs) ← takeNumber 2 cs
  if cs.isEmpty then
    return ofCivil ⟨date, hour, minute, 0, 0, none⟩
  let cs ← takeMark [':'] cs
  let (second, cs) ← takeNumber 2 cs
  if cs.isEmpty then
    return ofCivil ⟨date, hour, minute, second, 0, none⟩
  let cs ← takeMark ['.'] cs
  let (micros, cs) ← takeNumber 6 cs
  if cs.isEmpty then
    return ofCivil ⟨date, hour, minute, second, micros, none⟩
  else none

end Instant

/-- what a clock shows each time that it is read -/
abbrev Clock := Nat → Instant

namespace Clock

/-- a clock that stands still -/
def still (now : Instant) : Clock := fun _ => now

/-- a clock once it has been read -/
def next (c : Clock) : Clock := fun n => c (n + 1)

end Clock

end LintLedger
