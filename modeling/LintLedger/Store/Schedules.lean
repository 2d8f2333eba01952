import LintLedger.Schedule
import LintLedger.Store.Violations

/-!
# Keeping schedules

What is kept of the schedule of each rule, so that a rule that is backed off stays so after a restart.
A rule and an engine have one row between them.  Whether a rule is enabled and its priority are
settled when its row is written first.
-/

namespace LintLedger

/-- what is to be kept of the schedule of a rule, as it was given -/
structure ScheduleEntry where
  rule : Value
  engine : Value
  zeroStreak : Value
  lastChecked : Value
deriving Inhabited

/-- what is kept of a schedule as it is given to the store -/
def ScheduleEntry.ofSaved (s : SavedState) : ScheduleEntry :=
  ⟨s.rule, .text s.engine, .int s.zeroStreak, .int s.lastChecked⟩

/-- what is kept of the schedule of a rule as it was stored -/
def ScheduleRow.saved (r : ScheduleRow) : SavedState :=
  ⟨.text r.rule, r.engine, r.zeroStreak, r.lastChecked⟩

namespace Store

/-- what tells an entry from others: its rule and its engine -/
abbrev EntryKey := Key × Key

/-- the key of an entry -/
def entryKey (e : ScheduleEntry) : Except Fault EntryKey := do
  let rule ← e.rule.key
  let engine ← e.engine.key
  return (rule, engine)

/-- the key of a row -/
def rowKey (r : ScheduleRow) : EntryKey := (.text r.rule, .text r.engine)

/-- the entries in the order in which their keys first come, each key with its last entry -/
def lastEntries (keyed : List (EntryKey × ScheduleEntry)) : List (EntryKey × ScheduleEntry) :=
  (distinctBy Prod.fst keyed).map fun first =>
    (keyed.reverse.find? fun e => e.1 = first.1).getD first

/-- the rows with the one of a known entry changed -/
def updateSchedule (rows : List ScheduleRow) (e : EntryKey × ScheduleEntry) :
    Except Failure (List ScheduleRow) := do
  let zeroStreak ← countColumn .saveSchedules e.2.zeroStreak
  let lastChecked ← countColumn .saveSchedules e.2.lastChecked
  return rows.map fun r =>
    if rowKey r = e.1 then { r with zeroStreak := zeroStreak, lastChecked := lastChecked } else r

/-- the rows with one more; its rule and engine may not have a row already -/
def insertSchedule (priority : Value) (rows : List ScheduleRow) (e : EntryKey × ScheduleEntry) :
    Except Failure (List ScheduleRow) := do
  let action := StoreAction.saveSchedules
  let rule ← textColumn action e.2.rule
  let engine ← textColumn action e.2.engine
  let priority ← countColumn? action priority
  let zeroStreak ← countColumn? action e.2.zeroStreak
  let lastChecked ← countColumn? action e.2.lastChecked
  if rows.any fun r => r.rule = rule && r.engine = engine then throw (.store action)
  return rows ++ [⟨nextId ScheduleRow.id rows, rule, engine, true, priority.getD 1,
    zeroStreak.getD 0, lastChecked.getD 0⟩]

/-- entries kept; those that are known are changed, the others are written with a priority -/
def saveSchedules (priority : Value) (entries : List ScheduleEntry) (s : Store) :
    Except Failure Store := do
  if entries.isEmpty then return s
  let rows ← need .saveSchedules s.schedules
  let keyed ← orFail (entries.mapM fun e => (entryKey e).map (·, e))
  let (known, new) := (lastEntries keyed).partition fun e => rows.any fun r => rowKey r = e.1
  let rows ← known.foldlM updateSchedule rows
  let rows ← new.foldlM (insertSchedule priority) rows
  return { s with schedules := some rows }

/-- what is kept of the enabled rules of an engine -/
def loadSchedules (engine : String) (s : Store) : Except Failure (List SavedState) := do
  let rows ← need .loadSchedules s.schedules
  return (rows.filter fun r => r.engine = engine && r.enabled).map (·.saved)

end Store

end LintLedger
