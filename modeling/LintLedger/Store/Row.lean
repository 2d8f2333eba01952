import LintLedger.Calendar
import LintLedger.Value

/-!
# Rows

What the store keeps: violations that have been found, what each check changed, the checks
themselves, the schedules of rules and measurements.  Times are moments of universal time.
-/

namespace LintLedger

/-- whether a stored violation is still there -/
inductive ViolationStatus where
  | active | resolved
deriving Repr, DecidableEq, Inhabited

/-- the name of a status -/
def ViolationStatus.name : ViolationStatus → String
  | active => "active"
  | resolved => "resolved"

/-- a violation as it is stored, known by its fingerprint -/
structure ViolationRow where
  fingerprint : String
  file : String
  line : Int
  column : Option Int
  message : String
  code : String
  category : String
  severity : String
  source : String
  rule : Option String
  fix : Option String
  firstSeen : Instant
  lastSeen : Instant
  resolvedAt : Option Instant
  status : ViolationStatus
deriving Repr, DecidableEq, Inhabited

/-- what a check says of a fingerprint as against the check before -/
inductive DeltaAction where
  | added | removed | unchanged
deriving Repr, DecidableEq, Inhabited

namespace DeltaAction

/-- the actions -/
def all : List DeltaAction := [added, removed, unchanged]

/-- the name of an action -/
def name : DeltaAction → String
  | added => "added"
  | removed => "removed"
  | unchanged => "unchanged"

/-- the action of a name -/
def ofName? (s : String) : Option DeltaAction := all.find? fun a => a.name = s

end DeltaAction

/-- what one check said of one fingerprint -/
structure HistoryRow where
  id : Int
  check : Int
  fingerprint : String
  action : DeltaAction
  recordedAt : Instant
deriving Repr, DecidableEq, Inhabited

/-- how far a check has come -/
inductive CheckStatus where
  | running | completed | failed
deriving Repr, DecidableEq, Inhabited

/-- the name of a status -/
def CheckStatus.name : CheckStatus → String
  | running => "running"
  | completed => "completed"
  | failed => "failed"

/-- a check of a rule by an analyzer -/
structure CheckRow where
  id : Int
  rule : String
  engine : String
  status : CheckStatus
  startedAt : Instant
  completedAt : Option Instant
  found : Int
  milliseconds : Int
  error : Option String
deriving Repr, DecidableEq, Inhabited

/-- what is kept of the schedule of a rule -/
structure ScheduleRow where
  id : Int
  rule : String
  engine : String
  enabled : Bool
  priority : Int
  zeroStreak : Int
  lastChecked : Int
deriving Repr, DecidableEq, Inhabited

/-- a measurement -/
structure MetricRow where
  id : Int
  kind : String
  value : Float
  unit : String
  context : Value
  recordedAt : Instant
deriving Inhabited

/-- the rows of a table; none if the table has been lost -/
abbrev Table (α : Type) := Option (List α)

/-- the tables of the store -/
inductive TableName where
  | violations | history | checks | schedules | metrics
deriving Repr, DecidableEq, Inhabited

namespace TableName

/-- the tables -/
def all : List TableName := [violations, history, checks, schedules, metrics]

/-- the name of a table -/
def name : TableName → String
  | violations => "violations"
  | history => "violation_history"
  | checks => "rule_checks"
  | schedules => "rule_schedules"
  | metrics => "performance_metrics"

/-- the table of a name -/
def ofName? (s : String) : Option TableName := all.find? fun t => t.name = s

end TableName

/-- all that is kept from one run to the next -/
structure Store where
  violations : Table ViolationRow
  history : Table HistoryRow
  checks : Table CheckRow
  schedules : Table ScheduleRow
  metrics : Table MetricRow
deriving Inhabited

namespace Store

/-- a store in which nothing is kept yet -/
def empty : Store := ⟨some [], some [], some [], some [], some []⟩

/-- a store in which a table has been lost -/
def drop (s : Store) : TableName → Store
  | .violations => { s with violations := none }
  | .history => { s with history := none }
  | .checks => { s with checks := none }
  | .schedules => { s with schedules := none }
  | .metrics => { s with metrics := none }

/-- the number of a new row: one more than the largest there is -/
def nextId {α : Type} (id : α → Int) (rows : List α) : Int :=
  rows.foldl (fun n r => max n (id r)) 0 + 1

/-- new rows with their numbers -/
def numbered {α β : Type} (id : β → Int) (rows : List β) (make : Int → α → β) (items : List α) :
    List β :=
  items.mapIdx fun i a => make (nextId id rows + i) a

end Store

/-- how a store is kept -/
structure StoreSettings where
  /-- how many violations are written at a time -/
  batchSize : Nat := 100
  /-- how long history, resolved violations and measurements are kept -/
  historyDays : Int := 30
  /-- whether measurements are kept at all -/
  metrics : Bool := true
deriving Repr, DecidableEq, Inhabited

end LintLedger
