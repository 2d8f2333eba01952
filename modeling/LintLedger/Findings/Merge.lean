import LintLedger.Order.Insertion
import LintLedger.Report

/-!
# Merging findings

The findings of all runs that succeeded, in one order that does not depend on which run ended
first: by the rank of the analyzer, then the gravest first, then by file and line.  What has the
same place keeps its order.
-/

namespace LintLedger.Findings

/-- the place of a finding in the merged order -/
structure Place where
  rank : Nat
  severity : Nat
  file : Value
  line : Value

/-- the rank of an analyzer: its last place in the order, or behind all if it is not there -/
def rankOf (order : List String) (engine : String) : Nat :=
  match order.reverse.idxOf? engine with
  | some i => order.length - 1 - i
  | none => order.eraseDups.length

/-- the rank of a severity; one that is not known comes last -/
def severityRank : Label Severity → Except Fault Nat
  | .known s => .ok s.rank
  | .raw v => v.key.map fun _ => 99

/-- the place of a finding of an analyzer -/
def placeOf (order : List String) (engine : String) (v : Violation) : Except Fault Place :=
  (severityRank v.severity).map fun s => ⟨rankOf order engine, s, v.file, v.line⟩

/-- whether a place lies before another -/
def Place.before (a b : Place) : Except Fault Bool :=
  if a.rank ≠ b.rank then .ok (a.rank < b.rank)
  else if a.severity ≠ b.severity then .ok (a.severity < b.severity)
  else if !Value.same a.file b.file then Value.before a.file b.file
  else if !Value.same a.line b.line then Value.before a.line b.line
  else .ok false

/-- a finding with its place -/
abbrev Placed := Place × Violation

/-- the findings of the runs that succeeded, each with the name of its analyzer -/
def tagged (reports : List Report) : List (String × Violation) :=
  (reports.filter (·.success)).flatMap fun r => r.violations.map fun v => (r.engine, v)

/-- whether a finding may stand in front of another -/
def notAfter (a b : Placed) : Bool :=
  match Place.before b.1 a.1 with
  | .ok later => !later
  | .error _ => true

/-- findings in the merged order -/
def sortPlaced (items : List Placed) : Except Fault (List Violation) :=
  match Order.firstFailure? (fun a b => Place.before a.1 b.1) items with
  | some fault => .error fault
  | none => .ok ((items.mergeSort notAfter).map Prod.snd)

/-- the findings of all runs that succeeded in one order -/
def merge (reports : List Report) (order : List String) : Except Fault (List Violation) := do
  let placed ← (tagged reports).mapM fun t => do
    let place ← placeOf order t.1 t.2
    return (place, t.2)
  sortPlaced placed

end LintLedger.Findings
