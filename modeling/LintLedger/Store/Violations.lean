import LintLedger.Batches
import LintLedger.Distinct
import LintLedger.Settings
import LintLedger.Store.Column
import LintLedger.Store.Row
import LintLedger.Violation.Fingerprint
import LintLedger.Violation.Problems

/-!
# Writing violations

A violation that is already known by its fingerprint is seen again; any other is written as a new
row.  Violations are written in batches, each of them whole or not at all: when one fails, those
before it stay.  Resolving a violation keeps its row, and seeing it again makes it active.  Violations
are resolved in parts, as many as one statement can name, which are all written or none.
-/

namespace LintLedger

/-- what came of storing violations -/
structure StoreResult where
  inserted : Nat
  updated : Nat
  errors : List String
deriving Repr, DecidableEq, Inhabited

/-- how a store is kept, with a number of violations that are written at a time; it may not be less
than one -/
def StoreSettings.of (batchSize historyDays : Int) (metrics : Bool) : Except Failure StoreSettings :=
  if batchSize < 1 then .error .emptyStoreBatch else .ok ⟨batchSize.toNat, historyDays, metrics⟩

/-- how a store is kept by the settings -/
def StoreSettings.ofDatabase (d : DatabaseSettings) : StoreSettings :=
  ⟨d.batchSize, d.maxHistoryDays, d.enableMetrics⟩

namespace ViolationRow

/-- a row seen again -/
def seen (now : Instant) (r : ViolationRow) : ViolationRow :=
  { r with lastSeen := now, status := .active, resolvedAt := none }

/-- whether a row is active -/
def isActive (r : ViolationRow) : Bool := r.status = .active

/-- a row resolved, if it is active and one of those that are to be resolved -/
def resolve (now : Instant) (fingerprints : List String) (r : ViolationRow) : ViolationRow :=
  if r.isActive && fingerprints.contains r.fingerprint then
    { r with status := .resolved, resolvedAt := some now }
  else r

end ViolationRow

namespace Store

/-- a table that a part of the store's work needs -/
def need {α : Type} (action : StoreAction) : Table α → Except Failure (List α)
  | some rows => .ok rows
  | none => .error (.store action)

/-- the new row of a violation without problems -/
def newRow (now : Instant) (fingerprint : String) (v : Violation) :
    Except Failure ViolationRow := do
  let action := StoreAction.storeViolations
  let file ← textColumn action v.file
  let line ← countColumn action v.line
  let column ← countColumn? action v.column
  let message ← textColumn action v.wording
  let code ← textColumn action v.code
  let category ← textColumn action v.categoryValue
  let severity ← textColumn action v.severityValue
  let source ← textColumn action v.sourceValue
  let rule ← textColumn? action v.rule
  let fix ← textColumn? action v.fix
  return ⟨fingerprint, file, line, column, message, code, category, severity, source, rule, fix,
    now, now, none, .active⟩

/-- the text that reports a violation with problems -/
def rejection (index : Nat) (v : Violation) (problems : List Violation.Problem) : String :=
  "violation " ++ Decimal.digitText index ++ " (" ++ v.file.display ++ ":" ++ v.line.display
    ++ "): " ++ String.intercalate "; " (problems.map (·.message))

/-- violations with their fingerprints, and the reports of those that have problems -/
def screen : Nat → List Violation → Except Fault (List (String × Violation) × List String)
  | _, [] => .ok ([], [])
  | index, v :: rest => do
    let problems ← v.problems
    if problems.isEmpty then
      let fingerprint ← v.fingerprint
      let (valid, errors) ← screen (index + 1) rest
      return ((fingerprint, v) :: valid, errors)
    else
      let (valid, errors) ← screen (index + 1) rest
      return (valid, rejection index v problems :: errors)

/-- what a batch will write: the fingerprints of rows that are seen again, and new rows -/
structure Pending where
  seen : List String := []
  inserted : List ViolationRow := []
deriving Repr, DecidableEq, Inhabited

/-- whether a row has a fingerprint -/
def isRow (fingerprint : String) (r : ViolationRow) : Bool := r.fingerprint = fingerprint

/-- one more violation of a batch -/
def pend (rows : List ViolationRow) (now : Instant) (p : Pending) (item : String × Violation) :
    Except Failure Pending :=
  if rows.any (isRow item.1) || p.inserted.any (isRow item.1) then
    .ok { p with seen := p.seen ++ [item.1] }
  else (newRow now item.1 item.2).map fun row => { p with inserted := p.inserted ++ [row] }

/-- the rows once a batch has been written -/
def Pending.apply (now : Instant) (p : Pending) (rows : List ViolationRow) : List ViolationRow :=
  (rows ++ p.inserted).map fun r => if p.seen.contains r.fingerprint then r.seen now else r

/-- one batch written whole, or not at all -/
def storeBatch (now : Instant) (rows : List ViolationRow) (batch : List (String × Violation)) :
    Except Failure (List ViolationRow × Pending) := do
  let p ← batch.foldlM (pend rows now) {}
  return (p.apply now rows, p)

/-- batches written one after another, up to the first that fails; the clock is read for each -/
def storeBatches (clock : Clock) (result : StoreResult) :
    List (List (String × Violation)) → List ViolationRow →
      Except Failure StoreResult × List ViolationRow × Clock
  | [], rows => (.ok result, rows, clock)
  | batch :: rest, rows =>
    match storeBatch (clock 0) rows batch with
    | .error f => (.error f, rows, clock.next)
    | .ok (rows, p) =>
      let result := { result with
        inserted := result.inserted + p.inserted.length
        updated := result.updated + p.seen.length }
      storeBatches clock.next result rest rows

/-- violations stored, with the clock as it is afterwards; one with problems is reported and passed
over -/
def storeViolations (k : StoreSettings) (clock : Clock) (vs : List Violation) (s : Store) :
    Except Failure StoreResult × Store × Clock :=
  match screen 0 vs with
  | .error f => (.error (.fault f), s, clock)
  | .ok (valid, errors) =>
    let result : StoreResult := ⟨0, 0, errors⟩
    if valid.isEmpty then (.ok result, s, clock)
    else
      match s.violations with
      | none => (.error (.store .storeViolations), s, clock.next)
      | some rows =>
        let (outcome, rows, clock) := storeBatches clock result (batches k.batchSize valid) rows
        (outcome, { s with violations := some rows }, clock)

/-- how many fingerprints one statement names -/
def partSize : Nat := 500

/-- one more part of the fingerprints whose active violations are resolved, with the number of those that
were resolved so far -/
def resolvePart (now : Instant) (done : Nat × List ViolationRow) (part : List String) :
    Nat × List ViolationRow :=
  (done.1 + done.2.countP fun r => r.isActive && part.contains r.fingerprint,
    done.2.map (ViolationRow.resolve now part))

/-- active violations resolved, and how many of them there were -/
def resolveViolations (now : Instant) (fingerprints : List String) (s : Store) :
    Except Failure (Nat × Store) :=
  if fingerprints.isEmpty then .ok (0, s)
  else do
    let rows ← need .resolveViolations s.violations
    let parts := batches partSize (distinct fingerprints)
    let (changed, rows) := parts.foldl (resolvePart now) (0, rows)
    return (changed, { s with violations := some rows })

end Store

end LintLedger
