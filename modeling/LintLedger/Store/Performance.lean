import LintLedger.Store.Violations

/-!
# How rules perform

For each rule and engine that has been checked: how often, with what outcome, how long it takes and
how much it finds on average.
-/

namespace LintLedger

/-- how a rule of an engine performs -/
structure RulePerformance where
  rule : String
  engine : String
  runs : Nat
  completed : Nat
  failed : Nat
  averageMilliseconds : Float
  averageFound : Float
  lastRun : Instant
  zeroStreak : Int
deriving Inhabited

/-- the later of two moments -/
def Instant.later (a b : Instant) : Instant := if a.micros < b.micros then b else a

/-- the earlier of two moments -/
def Instant.earlier (a b : Instant) : Instant := if b.micros < a.micros then b else a

/-- the average of whole numbers, zero if there are none -/
def average (ns : List Int) : Float :=
  if ns.isEmpty then 0 else (Decimal.floatOfInt? (ns.foldl (· + ·) 0)).getD 0 / Float.ofNat ns.length

/-- how a rule performs by the first of its checks and the others -/
def RulePerformance.ofChecks (zeroStreak : Int) (first : CheckRow) (rest : List CheckRow) :
    RulePerformance :=
  let checks := first :: rest
  { rule := first.rule
    engine := first.engine
    runs := checks.length
    completed := checks.countP fun c => c.status = .completed
    failed := checks.countP fun c => c.status = .failed
    averageMilliseconds := average (checks.map (·.milliseconds))
    averageFound := average (checks.map (·.found))
    lastRun := (checks.map (·.startedAt)).foldl Instant.later first.startedAt
    zeroStreak := zeroStreak }

/-- whether a rule is listed no later than another: by engine, then by rule -/
def RulePerformance.isUpTo (a b : RulePerformance) : Bool :=
  a.engine < b.engine || (a.engine = b.engine && !(b.rule < a.rule))

namespace Store

/-- the checks of each rule and engine: the first of them and the others -/
def checkGroups (checks : List CheckRow) : List (CheckRow × List CheckRow) :=
  let key := fun (c : CheckRow) => (c.rule, c.engine)
  (distinctBy key checks).map fun first =>
    (first, (checks.filter fun c => key c = key first).drop 1)

/-- the checks in a row without a finding that are kept of a rule -/
def zeroStreakOf (schedules : List ScheduleRow) (c : CheckRow) : Int :=
  match schedules.find? fun r => r.rule = c.rule && r.engine = c.engine with
  | some r => r.zeroStreak
  | none => 0

/-- how each rule performs -/
def getPerformance (s : Store) : Except Failure (List RulePerformance) := do
  let schedules ← need .getPerformance s.schedules
  let checks ← need .getPerformance s.checks
  let items := (checkGroups checks).map fun g =>
    RulePerformance.ofChecks (zeroStreakOf schedules g.1) g.1 g.2
  return items.mergeSort RulePerformance.isUpTo

end Store

end LintLedger
