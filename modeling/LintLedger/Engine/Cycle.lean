import LintLedger.Engine
import LintLedger.Store.Checks
import LintLedger.Store.Cleanup
import LintLedger.Store.Deltas
import LintLedger.Store.Metrics
import LintLedger.Store.Schedules
import LintLedger.Watch

/-!
# Cycles

A cycle is an analysis whose outcome is kept.  First what changed is written down as against the
violations that are active, then the violations themselves, then a check for each analyzer and the
time of the whole.  If the store fails on the way, the check of the cycle is marked as failed, and
what had been written before stays.  A violation that is no longer found stays active until it is
resolved.
-/

namespace LintLedger

/-- what came of one cycle -/
structure Cycle where
  analysis : Analysis
  /-- the number of the check -/
  check : Int
  stored : StoreResult
  delta : Delta
deriving Inhabited

namespace Store

/-- a piece of work as one whole: if it fails, the store stays as it was -/
def commit {α : Type} (work : Store → Except Failure (α × Store)) :
    ExceptT Failure (StateM Store) α :=
  ExceptT.mk fun s =>
    match work s with
    | .ok (a, s) => (.ok a, s)
    | .error f => (.error f, s)

/-- a piece of work of which only the change is wanted -/
def commitChange (work : Store → Except Failure Store) : ExceptT Failure (StateM Store) Unit :=
  commit fun s => (work s).map fun s => ((), s)

/-- work on a store by a clock -/
abbrev Work (α : Type) : Type := ExceptT Failure (StateM (Store × Clock)) α

/-- work on a store that reads the clock once before it begins -/
def timed {α : Type} (work : Instant → ExceptT Failure (StateM Store) α) : Work α :=
  ExceptT.mk fun (s, clock) =>
    let (outcome, s) := (work (clock 0)).run.run s
    (outcome, s, clock.next)

/-- work on a store that does not read the clock -/
def untimed {α : Type} (work : ExceptT Failure (StateM Store) α) : Work α :=
  ExceptT.mk fun (s, clock) =>
    let (outcome, s) := work.run.run s
    (outcome, s, clock)

/-- violations stored as a piece of work, of which what was done before a failure stays -/
def storing (k : StoreSettings) (vs : List Violation) : Work StoreResult :=
  ExceptT.mk fun (s, clock) => storeViolations k clock vs s

/-- an answer that may be a failure -/
def given {α : Type} (outcome : Except Failure α) : Work α := ExceptT.mk fun state => (outcome, state)

end Store

namespace Engine

open Store

/-- the name that stands for every rule -/
def everyRule : Value := .text "all"

/-- the name under which cycles are checked -/
def conductor : Value := .text "orchestrator"

/-- the fingerprints of the violations that can be stored -/
def currentFingerprints (vs : List Violation) : Except Fault (List String) := do
  let prints ← vs.mapM fun v => do
    let problems ← v.problems
    if problems.isEmpty then (v.fingerprint).map some else .ok none
  return prints.filterMap id

/-- the rule that a report was about, or all of them -/
def ruleOf (r : Report) : Value :=
  match r.checkedRule? with
  | some v => if v.truthy then v else everyRule
  | none => everyRule

/-- the run of one analyzer written down as a check -/
def recordRun (r : Report) : Work Unit := do
  let check ← timed fun now => commit (startCheck now (ruleOf r) (.text r.engine))
  let milliseconds ← given (orFail r.elapsed.milliseconds)
  timed fun now =>
    if r.success then
      commitChange (completeCheck now check (.int r.violations.length) (.int milliseconds))
    else commitChange (failCheck now check (.text r.failure) (.int milliseconds))

/-- what is measured of a cycle -/
def measured (a : Analysis) : Value :=
  Value.record [("violations", .int a.violations.length), ("engines", .int a.reports.length)]

/-- the outcome of an analysis written down under the number of its check -/
def recordAnalysis (k : StoreSettings) (check : Int) (a : Analysis) : Work (Delta × StoreResult) := do
  let current ← given (orFail (currentFingerprints a.violations))
  let delta ← timed fun now => commit (recordDeltas now (.int check) current)
  let stored ← storing k a.violations
  a.reports.forM recordRun
  timed fun now =>
    commitChange (recordMetric k now (.text "cycle_time") (.float 0) (.text "ms") (measured a))
  return (delta, stored)

/-- marks a check as failed, unless the store fails at that as well -/
def markFailed (check : Int) (f : Failure) : Work Unit :=
  tryCatch (timed fun now => commitChange (failCheck now check (.text f.message) (.int 0))) fun g =>
    if g.kind = .storage then pure () else throw g

/-- what is kept of the schedules of the analyzers -/
def saveSchedules (e : Engine) : ExceptT Failure (StateM Store) Unit :=
  e.analyzers.forM fun a =>
    match a.schedule? with
    | some schedule =>
      commitChange (Store.saveSchedules (.int a.settings.priority)
        (schedule.saved.map ScheduleEntry.ofSaved))
    | none => pure ()

/-- an analysis kept as a cycle -/
def keep (k : StoreSettings) (e : Engine) (a : Analysis) : Work Cycle := do
  let check ← timed fun now => commit (startCheck now everyRule conductor)
  let (delta, stored) ← tryCatch (recordAnalysis k check a) fun f => do
    if f.kind = .storage then markFailed check f
    throw f
  timed fun now => commitChange (completeCheck now check (.int a.violations.length) (.int 0))
  untimed e.saveSchedules
  return ⟨a, check, stored, delta⟩

/-- one cycle of an engine that keeps its results, by a clock -/
def cycle (clock : Clock) (target : Option String) (e : Engine) (s : Store) :
    Except Failure Cycle × Engine × Store :=
  match e.keeping with
  | none => (.error .noStore, e, s)
  | some k =>
    match e.analyze target with
    | (.error f, e) => (.error f, e, s)
    | (.ok a, e) =>
      let (outcome, s, _) := (e.keep k a).run.run (s, clock)
      (outcome, e, s)

/-- one cycle at a moment -/
def runCycle (now : Instant) (target : Option String) (e : Engine) (s : Store) :
    Except Failure Cycle × Engine × Store :=
  e.cycle (.still now) target s

/-- an analyzer that takes up what was kept of its schedule -/
def restoreAnalyzer (s : Store) (a : Analyzer) : Except Failure Analyzer :=
  match a.schedule? with
  | some schedule => (loadSchedules a.name s).map fun kept => a.withSchedule (schedule.restore kept)
  | none => .ok a

/-- an engine whose analyzers take up what was kept of their schedules, if anything is kept -/
def restore (s : Store) (e : Engine) : Except Failure Engine :=
  match e.keeping with
  | none => .ok e
  | some _ => do
    let analyzers ← e.analyzers.mapM (restoreAnalyzer s)
    return { e with analyzers := analyzers }

end Engine

/-! ### The watch over a project -/

/-- an engine with its store, and the clock by which the watch goes -/
structure Site where
  engine : Engine
  store : Store
  clock : Float
deriving Inhabited

namespace Site

/-- one cycle -/
def cycle (now : Instant) (s : Site) : List Watch.Signal × Except Failure Cycle × Site :=
  let (outcome, engine, store) := s.engine.runCycle now none s.store
  ([], outcome, { s with engine := engine, store := store })

/-- removing what is too old -/
def cleanup (now : Instant) (k : StoreSettings) (s : Site) : Except Failure Unit × Site :=
  match Store.cleanup k now none s.store with
  | .ok (_, store) => (.ok (), { s with store := store })
  | .error f => (.error f, s)

/-- a listener that keeps silent -/
def silent : Watch.Listener Site Cycle := fun _ _ s => ([], .ok (), s)

/-- a project as the world of a watch with one silent listener: no signals arrive, and a wait takes
its whole time -/
def world (now : Instant) (keeping : Option StoreSettings) : Watch.World Site Cycle where
  now := (·.clock)
  cycle := fun _ s => s.cycle now
  wait := fun seconds woken s => ([], if woken then s else { s with clock := s.clock + seconds })
  listeners := [silent.guarded]
  cleanup := keeping.map (cleanup now)
  refuses := Failure.ofWait?

end Site

end LintLedger
