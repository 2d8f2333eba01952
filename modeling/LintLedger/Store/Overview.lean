import LintLedger.Store.Listing
import LintLedger.Store.Performance

/-!
# Overviews

The active violations by rule and class, the numbers of rows, and the board on which all of it stands
together.
-/

namespace LintLedger

/-- active violations that have rule, category, severity and source in common -/
structure SummaryItem where
  rule : Option String
  category : String
  severity : String
  source : String
  count : Nat
  files : Nat
  firstSeen : Instant
  lastSeen : Instant
deriving Repr, DecidableEq, Inhabited

/-- an item of the first of its violations and the others -/
def SummaryItem.ofRows (first : ViolationRow) (rest : List ViolationRow) : SummaryItem :=
  let rows := first :: rest
  { rule := first.rule
    category := first.category
    severity := first.severity
    source := first.source
    count := rows.length
    files := (distinct (rows.map (·.file))).length
    firstSeen := (rows.map (·.firstSeen)).foldl Instant.earlier first.firstSeen
    lastSeen := (rows.map (·.lastSeen)).foldl Instant.later first.lastSeen }

/-- texts by which items are told apart once their counts are the same; no rule comes first -/
def SummaryItem.place (i : SummaryItem) : List String :=
  [i.category] ++ (match i.rule with | none => ["", ""] | some r => ["+", r])
    ++ [i.severity, i.source]

/-- whether an item is listed no later than another: the larger ones first -/
def SummaryItem.isUpTo (a b : SummaryItem) : Bool :=
  b.count < a.count || (a.count = b.count && !(b.place < a.place))

/-- how many rows there are -/
structure StoreStats where
  violations : Nat
  active : Nat
  resolved : Nat
  checks : Nat
  history : Nat
  metrics : Nat
deriving Repr, DecidableEq, Inhabited

/-- names with their counts -/
abbrev Tally := List (String × Nat)

/-- a tally with more of a name -/
def Tally.add (t : Tally) (name : String) (n : Nat) : Tally :=
  match t with
  | [] => [(name, n)]
  | (other, m) :: rest =>
    if other = name then (other, m + n) :: rest else (other, m) :: Tally.add rest name n

/-- how many violations the items have together -/
def totalCount : List SummaryItem → Nat
  | [] => 0
  | i :: rest => i.count + totalCount rest

/-- how many violations the items have under each name -/
def tallyItems (start : Tally) (name : SummaryItem → String) (items : List SummaryItem) : Tally :=
  items.foldl (fun t i => t.add (name i) i.count) start

/-- all that a display needs -/
structure Dashboard where
  active : Nat
  files : Nat
  bySeverity : Tally
  bySource : Tally
  byCategory : Tally
  summary : List SummaryItem
  performance : List RulePerformance
  history : List HistoryRow
  lastCheck : Option Instant
deriving Inhabited

namespace Store

/-- what two violations of one item have in common -/
def itemKey (r : ViolationRow) : Option String × String × String × String :=
  (r.rule, r.category, r.severity, r.source)

/-- the active violations by rule, category, severity and source -/
def getSummary (s : Store) : Except Failure (List SummaryItem) := do
  let rows ← need .getSummary s.violations
  let active := rows.filter (·.isActive)
  let items := (distinctBy itemKey active).map fun first =>
    SummaryItem.ofRows first ((active.filter fun r => itemKey r = itemKey first).drop 1)
  return items.mergeSort SummaryItem.isUpTo

/-- how many rows there are -/
def getStats (s : Store) : Except Failure StoreStats := do
  let violations ← need .getStats s.violations
  let checks ← need .getStats s.checks
  let history ← need .getStats s.history
  let metrics ← need .getStats s.metrics
  return {
    violations := violations.length
    active := violations.countP fun r => r.status = .active
    resolved := violations.countP fun r => r.status = .resolved
    checks := checks.length
    history := history.length
    metrics := metrics.length }

/-- the end of the last check that ended well -/
def lastCompleted (checks : List CheckRow) : Option Instant :=
  match (checks.filter fun c => c.status = .completed).filterMap (·.completedAt) with
  | [] => none
  | t :: rest => some (rest.foldl Instant.later t)

/-- all that a display needs, with the newest rows of history -/
def getDashboard (historyLimit : Int) (s : Store) : Except Failure Dashboard := do
  let summary ← s.getSummary
  let performance ← s.getPerformance
  let history ← s.getHistory {} { limit := historyLimit }
  let violations ← need .getDashboard s.violations
  let checks ← need .getDashboard s.checks
  let files := (violations.filter (·.isActive)).map (·.file)
  return {
    active := totalCount summary
    files := (distinct files).length
    bySeverity := tallyItems [("error", 0), ("warn", 0), ("info", 0)] (·.severity) summary
    bySource := tallyItems [] (·.source) summary
    byCategory := tallyItems [] (·.category) summary
    summary := summary
    performance := performance
    history := history
    lastCheck := lastCompleted checks }

end Store

end LintLedger
