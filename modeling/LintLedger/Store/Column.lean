import LintLedger.Failure
import LintLedger.Value.Convert

/-!
# Columns

What a value becomes in a column of the store.  A text column writes numbers, days and moments out as
text; a column of whole numbers holds 64 bits with a sign.  Lists and maps fit in neither.
-/

namespace LintLedger.Store

/-- whether a whole number fits in 64 bits with a sign -/
def fits (i : Int) : Bool := -(Decimal.twoTo 63 : Int) ≤ i && i < Decimal.twoTo 63

/-- a whole number in a column -/
def wholeColumn (i : Int) : Except Failure Int := if fits i then .ok i else .error .beyondStore

/-- a whole number or nothing in a column -/
def wholeColumn? : Option Int → Except Failure (Option Int)
  | none => .ok none
  | some i => (wholeColumn i).map some

/-- how a text column writes a double: in at most fifteen digits, and never without a point -/
def columnStyle : Decimal.Style := ⟨-4, 15, true⟩

/-- a number with an exponent in which the point is not left out -/
def withPoint (s : String) : String :=
  if s.toList.contains '.' then s
  else
    String.ofList (s.toList.takeWhile (· != 'e')) ++ ".0"
      ++ String.ofList (s.toList.dropWhile (· != 'e'))

/-- a double as a text column writes it; no number at all is written as nothing -/
def floatText? (x : Float) : Option String :=
  match Decimal.reading x with
  | .undefined => none
  | .infinite negative => some (Decimal.withSign negative "Inf")
  | .finite negative m e =>
    if m = 0 then some "0.0"
    else
      let (digits, tens) := Decimal.significantOf 15 m e
      some (Decimal.withSign negative (withPoint (columnStyle.render digits tens)))

/-- a value in a text column -/
def textColumn? (action : StoreAction) : Value → Except Failure (Option String)
  | .null => .ok none
  | .text s => .ok (some s)
  | .bool b => .ok (some (if b then "1" else "0"))
  | .int i => (wholeColumn i).map fun i => some (Value.int i).display
  | .float x => .ok (floatText? x)
  | .date d => .ok (some (Value.date d).display)
  | .time t => .ok (some (Value.time t).display)
  | _ => .error (.store action)

/-- a value in a text column that may not be empty -/
def textColumn (action : StoreAction) (v : Value) : Except Failure String := do
  match ← textColumn? action v with
  | some s => return s
  | none => throw (.store action)

/-- a value in a column of whole numbers -/
def countColumn? (action : StoreAction) : Value → Except Failure (Option Int)
  | .null => .ok none
  | .bool b => .ok (some (if b then 1 else 0))
  | .int i => (wholeColumn i).map some
  | .float x =>
    match Decimal.rational? x with
    | some q => if q.den = 1 && fits q.num then .ok (some q.num) else .error (.store action)
    | none => .error (.store action)
  | .text s =>
    match integerOfText s with
    | .ok i => (wholeColumn i).map some
    | .error _ => .error (.store action)
  | _ => .error (.store action)

/-- a value in a column of whole numbers that may not be empty -/
def countColumn (action : StoreAction) (v : Value) : Except Failure Int := do
  match ← countColumn? action v with
  | some i => return i
  | none => throw (.store action)

end LintLedger.Store
