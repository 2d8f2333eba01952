import LintLedger.Store.Violations

/-!
# Listing what is stored

Violations are listed by file, line and fingerprint, and history from the newest row back.  A list is
narrowed by what is asked for; what is not asked for narrows nothing.  However many rows are wanted,
no list holds more than a thousand.
-/

namespace LintLedger

/-- which part of a list is wanted -/
structure Window where
  limit : Int := 100
  offset : Int := 0
deriving Repr, DecidableEq, Inhabited

namespace Window

/-- the most rows that one list holds -/
def longest : Nat := 1000

/-- the number of rows that may be listed -/
def size (w : Window) : Nat := min w.limit.toNat longest

/-- the number of rows that are passed over -/
def skipped (w : Window) : Nat := w.offset.toNat

/-- the part of the rows that is wanted -/
def view {α : Type} (w : Window) (rows : List α) : List α := (rows.drop w.skipped).take w.size

/-- no list is longer than a thousand rows -/
theorem length_view_le {α : Type} (w : Window) (rows : List α) :
    (w.view rows).length ≤ longest := by
  simp only [view, List.length_take, size]
  omega

end Window

/-- whether one of some names is wanted; no names at all stand for any -/
def admits (wanted : List String) (name : String) : Bool := wanted.isEmpty || wanted.contains name

/-- what violations are asked for -/
structure ViolationFilter where
  statuses : List String := [ViolationStatus.active.name]
  categories : List String := []
  sources : List String := []
  severities : List String := []
  files : List String := []
  /-- when they have to have been seen last -/
  since : Option Instant := none
deriving Repr, DecidableEq, Inhabited

/-- whether a violation is asked for -/
def ViolationFilter.accepts (f : ViolationFilter) (r : ViolationRow) : Bool :=
  admits f.statuses r.status.name && admits f.categories r.category && admits f.sources r.source
    && admits f.severities r.severity && admits f.files r.file
    && f.since.all fun t => t.micros ≤ r.lastSeen.micros

/-- whether a violation is listed no later than another -/
def ViolationRow.isUpTo (a b : ViolationRow) : Bool :=
  a.file < b.file || (a.file = b.file
    && (a.line < b.line || (a.line = b.line && !(b.fingerprint < a.fingerprint))))

/-- what history is asked for -/
structure HistoryFilter where
  since : Option Instant := none
  upTo : Option Instant := none
  actions : List DeltaAction := []
deriving Repr, DecidableEq, Inhabited

/-- whether a row of history is asked for -/
def HistoryFilter.accepts (f : HistoryFilter) (r : HistoryRow) : Bool :=
  (f.since.all fun t => t.micros ≤ r.recordedAt.micros)
    && (f.upTo.all fun t => r.recordedAt.micros ≤ t.micros)
    && (f.actions.isEmpty || f.actions.contains r.action)

/-- whether a row of history is as new as another, or newer -/
def HistoryRow.isFrom (a b : HistoryRow) : Bool :=
  b.recordedAt.micros < a.recordedAt.micros
    || (a.recordedAt = b.recordedAt && b.id ≤ a.id)

/-- the actions of some names, all of which have to be known -/
def DeltaAction.ofNames (names : List String) : Except Failure (List DeltaAction) :=
  let unknown := distinct (names.filter fun s => (DeltaAction.ofName? s).isNone)
  if unknown.isEmpty then .ok (names.filterMap DeltaAction.ofName?)
  else .error (.unknownActions (unknown.mergeSort fun a b => !(b < a)))

namespace Store

/-- the wanted part of some rows; it has to begin at a place that can be counted to -/
def viewed {α : Type} (w : Window) (rows : List α) : Except Failure (List α) :=
  if fits w.skipped then .ok (w.view rows) else .error .beyondStore

/-- the violations that are asked for -/
def getViolations (f : ViolationFilter) (w : Window) (s : Store) :
    Except Failure (List ViolationRow) := do
  let rows ← need .getViolations s.violations
  viewed w ((rows.filter f.accepts).mergeSort ViolationRow.isUpTo)

/-- the history that is asked for -/
def getHistory (f : HistoryFilter) (w : Window) (s : Store) : Except Failure (List HistoryRow) := do
  let rows ← need .getHistory s.history
  viewed w ((rows.filter f.accepts).mergeSort HistoryRow.isFrom)

end Store

end LintLedger
