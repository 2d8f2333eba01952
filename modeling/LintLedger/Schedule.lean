import LintLedger.Distinct
import LintLedger.Violation

/-!
# The schedule of rules

Rules are checked one in each cycle, round after round.  A rule that has found nothing for a number
of checks in a row is backed off: it is passed over until enough cycles have gone by since its last
check.  If every rule would be passed over, the rule whose turn it is is checked all the same, so
the round always goes on.  What each rule found last is kept, and all of it together is what is
known of the code.
-/

namespace LintLedger

/-- a rule as it was written, known again by its key -/
structure Rule where
  key : Key
  value : Value
deriving Inhabited

namespace Rule

/-- the rule that a value names -/
def ofValue (v : Value) : Except Fault Rule := v.key.map fun k => ⟨k, v⟩

/-- the rule of a name -/
def ofName (s : String) : Rule := ⟨.text s, .text s⟩

/-- rules in their order, each only once -/
def distinct (rules : List Rule) : List Rule := distinctBy Rule.key rules

end Rule

/-- what is known of a rule -/
structure RuleState where
  rule : Rule
  /-- the number of checks in a row that found nothing -/
  zeroStreak : Int
  /-- the cycle of the last check -/
  lastChecked : Int
  /-- what the last check found -/
  found : List Violation
deriving Inhabited

/-- a rule that has not been checked -/
def RuleState.fresh (r : Rule) : RuleState := ⟨r, 0, 0, []⟩

/-- the state of a round over rules -/
structure Schedule where
  engine : String
  zeroThreshold : Nat
  reducedInterval : Nat
  states : List RuleState
  cursor : Nat
  cycle : Nat
  lastRule : Option Rule
deriving Inhabited

/-- what is told of a schedule -/
structure ScheduleStatus where
  lastRule : Option Rule
  cursor : Nat
  rules : Nat
  backedOff : Nat
  cycle : Nat
deriving Inhabited

/-- how far the round has come -/
def ScheduleStatus.progress (s : ScheduleStatus) : String :=
  Decimal.digitText s.cursor ++ "/" ++ Decimal.digitText s.rules

/-- what is kept of a rule from one run to the next -/
structure SavedState where
  rule : Value
  engine : String
  zeroStreak : Int
  lastChecked : Int
deriving Inhabited

namespace Schedule

/-- the rules in their order -/
def rules (s : Schedule) : List Rule := s.states.map (·.rule)

/-- a schedule that has not begun -/
def start (engine : String) (zeroThreshold reducedInterval : Nat) (rules : List Rule) : Schedule where
  engine := engine
  zeroThreshold := zeroThreshold
  reducedInterval := reducedInterval
  states := (Rule.distinct rules).map RuleState.fresh
  cursor := 0
  cycle := 0
  lastRule := none

/-- what is known of a rule, if it is one of the schedule -/
def state? (s : Schedule) (key : Key) : Option RuleState :=
  s.states.find? fun e => e.rule.key = key

/-- the states with one changed -/
def modify (s : Schedule) (key : Key) (f : RuleState → RuleState) : Schedule :=
  { s with states := s.states.map fun e => if e.rule.key = key then f e else e }

/-- whether a rule has found nothing for so long that it is backed off -/
def isBackedOff (s : Schedule) (e : RuleState) : Bool := s.zeroThreshold ≤ e.zeroStreak

/-- whether a rule may be checked in the present cycle -/
def isEligible (s : Schedule) (e : RuleState) : Bool :=
  s.cycle ≤ 1 || !s.isBackedOff e || s.reducedInterval ≤ s.cycle - e.lastChecked

/-- the states in the order of their turns -/
def turns (s : Schedule) : List RuleState := s.states.drop s.cursor ++ s.states.take s.cursor

/-- the number of turns that are passed over: up to the first eligible rule, or none at all -/
def passed (s : Schedule) : Nat := (s.turns.findIdx? s.isEligible).getD 0

/-- the rule whose turn it is in the next cycle, and the schedule in that cycle -/
def select (s : Schedule) : Option (Rule × Schedule) :=
  if s.states.isEmpty then none
  else
    let s := { s with cycle := s.cycle + 1 }
    let skip := s.passed
    s.turns[skip]?.map fun e =>
      (e.rule, { s with cursor := (s.cursor + skip + 1) % s.states.length })

/-- a schedule in which a check of a rule is recorded -/
def record (s : Schedule) (r : Rule) (found : List Violation) : Schedule :=
  let s := s.modify r.key fun e =>
    { e with
      lastChecked := s.cycle
      zeroStreak := if found.isEmpty then e.zeroStreak + 1 else 0
      found := found }
  { s with lastRule := some r }

/-- all that the last checks of the rules found, in the order of the rules -/
def known (s : Schedule) : List Violation := s.states.flatMap (·.found)

/-- what is kept of a schedule -/
def saved (s : Schedule) : List SavedState :=
  s.states.map fun e => ⟨e.rule.value, s.engine, e.zeroStreak, e.lastChecked⟩

/-- a schedule that takes up what was kept of one rule; a rule of another engine is passed over -/
def restoreOne (s : Schedule) (saved : SavedState) : Schedule :=
  match saved.rule.key? with
  | none => s
  | some key =>
    if (s.state? key).isSome && saved.engine = s.engine then
      let s := s.modify key fun e =>
        { e with zeroStreak := saved.zeroStreak, lastChecked := saved.lastChecked }
      { s with cycle := max s.cycle saved.lastChecked.toNat }
    else s

/-- a schedule that takes up what was kept -/
def restore (s : Schedule) (saved : List SavedState) : Schedule := saved.foldl restoreOne s

/-- what is told of a schedule -/
def status (s : Schedule) : ScheduleStatus where
  lastRule := s.lastRule
  cursor := s.cursor
  rules := s.states.length
  backedOff := s.states.countP s.isBackedOff
  cycle := s.cycle

/-- a schedule that begins again with its rules -/
def reset (s : Schedule) : Schedule :=
  start s.engine s.zeroThreshold s.reducedInterval s.rules

/-- a schedule that begins again with other rules -/
def withRules (s : Schedule) (rules : List Rule) : Schedule :=
  start s.engine s.zeroThreshold s.reducedInterval rules

/-- the rule that the next cycle checks; the turn of a rule without a name passes without a check -/
def upcoming? (s : Schedule) : Option Rule :=
  (s.select.map Prod.fst).filter fun r => r.key ≠ .null

/-- one cycle: the rule whose turn it is is checked, and what is known then is the answer.  A check
that fails leaves the turn taken and nothing recorded. -/
def runCycle {ε : Type} (s : Schedule) (check : Rule → Except ε (List Violation)) :
    Except ε (Option Rule × List Violation) × Schedule :=
  match s.select with
  | none => (.ok (none, []), s)
  | some (rule, s) =>
    if rule.key = .null then (.ok (none, []), s)
    else
      match check rule with
      | .error e => (.error e, s)
      | .ok found =>
        let s := s.record rule found
        (.ok (some rule, s.known), s)

end Schedule

end LintLedger
