import LintLedger.Command
import LintLedger.Console.Page
import LintLedger.Engine.Cycle
import LintLedger.Settings.Load
import LintLedger.Store.Overview

/-!
# Running commands

A command opens its project: it reads the settings, and finds the store that they name or begins a
new one.  It ends with a code, what it has put on the console, and the failure that it could not
handle, if there was one.  Code 0 is for success, 1 for findings of the gravest severity or for such a
failure, 2 for arguments that cannot be read and for failures that are explained.
-/

namespace LintLedger

/-- all that a command can see and change -/
structure Environment where
  /-- the folder in which the program was started -/
  folder : Path
  files : Directory
  /-- the stores that there are, each under its path -/
  stores : List (Path × Store)
  now : Instant
deriving Inhabited

/-- how a command ended -/
structure Outcome where
  code : Nat
  output : List Console.Item
  failure : Option Failure := none
deriving Inhabited

/-- a project that is open -/
structure Project where
  root : Path
  settings : Settings
  keeping : StoreSettings
  /-- where its store lies -/
  storePath : Path
deriving Inhabited

namespace Environment

/-- the store at a path, a new one if there is none -/
def store (env : Environment) (p : Path) : Store := (env.stores.lookup p).getD Store.empty

/-- with another store at a path -/
def putStore (env : Environment) (p : Path) (s : Store) : Environment :=
  { env with stores := (p, s) :: env.stores.filter fun e => e.1 != p }

/-- a path as it was given, from the folder in which the program was started -/
def path (env : Environment) (s : String) : Path := env.folder.join (Path.ofText s)

/-- the project of a place; the folder of its store is there afterwards -/
def openProject (env : Environment) (place : Command.Place) :
    Except Failure Project × Environment :=
  let root := (env.path (place.folder.getD "")).resolve
  match Settings.load env.files (place.config.map env.path) root with
  | .error f => (.error f, env)
  | .ok settings =>
    let storePath := (root.join (Path.ofText settings.database.path)).resolve
    let folder : Path := { storePath with parts := storePath.parts.dropLast }
    (.ok ⟨root, settings, StoreSettings.ofDatabase settings.database, storePath⟩,
      { env with files := env.files.insertFolder folder })

/-- the engine of a project, which takes up what its store holds -/
def engine (env : Environment) (p : Project) : Except Failure Engine := do
  let analyzers ← Engine.enabledAnalyzers p.settings (.host env.files p.root)
  let e := Engine.of p.settings ⟨p.root, env.files⟩ (some p.keeping) analyzers
  e.restore (env.store p.storePath)

end Environment

namespace Outcome

/-- an end over a failure that was not handled -/
def crashed (output : List Console.Item) (f : Failure) : Outcome := ⟨1, output, some f⟩

/-- an end over a failure that is explained, if it is of a sort that is -/
def explained (output : List Console.Item) (f : Failure) : Outcome :=
  match f with
  | .analysis _ _ => ⟨2, output ++ [Console.error f.message], none⟩
  | .crossover message warnings =>
    ⟨2, output ++ Console.crossover warnings ++ [Console.error message], none⟩
  | f =>
    if f.kind = .storage then
      ⟨2, output ++ [Console.error ("Storage failure: " ++ f.message)], none⟩
    else crashed output f

/-- an end with arguments that cannot be read -/
def misused : Outcome := ⟨2, [], none⟩

end Outcome

namespace Command

/-- the outcome of a part of a command that may fail -/
def orCrash {α : Type} (output : List Console.Item) (env : Environment) (r : Except Failure α)
    (more : α → Outcome × Environment) : Outcome × Environment :=
  match r with
  | .ok a => more a
  | .error f => (.crashed output f, env)

/-- a command in the project of a place -/
def inProject (output : List Console.Item) (env : Environment) (place : Place)
    (more : Project → Environment → Outcome × Environment) : Outcome × Environment :=
  let (project, env) := env.openProject place
  orCrash output env project fun p => more p env

/-- one analysis that is kept -/
def runKept (env : Environment) (p : Project) (e : Engine) (target : Option String) (limit : Int) :
    Outcome × Environment :=
  let output := Console.banner ++ [Console.running]
  let (outcome, _, store) := e.runCycle env.now target (env.store p.storePath)
  let env := env.putStore p.storePath store
  match outcome with
  | .ok c => (⟨c.analysis.exitCode, output ++ Console.analysis limit c.analysis (some c), none⟩, env)
  | .error f => (.explained output f, env)

/-- one analysis that is only shown -/
def runShown (env : Environment) (e : Engine) (target : Option String) (limit : Int) :
    Outcome × Environment :=
  let output := Console.banner ++ [Console.running]
  match (e.analyze target).1 with
  | .ok a => (⟨a.exitCode, output ++ Console.analysis limit a none, none⟩, env)
  | .error f => (.explained output f, env)

/-- a project that is watched at an interval, if one is given -/
def watchedEvery (interval : Option Float) (p : Project) : Project :=
  let watch := { p.settings.watch with interval := interval.getD p.settings.watch.interval }
  { p with settings := { p.settings with watch := watch } }

/-- the watch over a project before its first cycle -/
def watchScene (env : Environment) (p : Project) (e : Engine) : Watch.Scene Site Cycle :=
  ⟨⟨e, env.store p.storePath, 0⟩, { settings := p.settings.watch }, []⟩

/-- what is shown before the first cycle of the watch -/
def watchHead (p : Project) : List Console.Item :=
  Console.banner ++ [Console.watchStart p.root p.settings.watch.interval]

/-- the cycles for which a watch without a limit is followed -/
def watchTurns : Nat := 1000

/-- the watch over a project -/
def runWatch (env : Environment) (p : Project) (e : Engine) (cycles : Option Int) :
    Outcome × Environment :=
  let turns := match cycles with
    | some n => n.toNat + 1
    | none => watchTurns
  let ending :=
    (watchScene env p e).run (Site.world env.now (some p.keeping)) cycles turns watchTurns
  let output := watchHead p ++ ending.scene.events.flatMap Console.event
  let env := env.putStore p.storePath ending.scene.world.store
  match ending.failure with
  | some f => (.crashed output f, env)
  | none => (⟨0, output ++ [Console.watchEnd ending.scene.watch], none⟩, env)

/-- the dashboard of a project -/
def runDashboard (env : Environment) (p : Project) : Outcome × Environment :=
  let store := env.store p.storePath
  let shown : Except Failure (List Console.Item) := do
    let board ← store.getDashboard 20
    let stats ← store.getStats
    let e ← env.engine p
    return Console.dashboard board stats.history e.ordered
  orCrash Console.banner env shown fun items => (⟨0, Console.banner ++ items, none⟩, env)

/-- a change of the store of a project, and the line that tells of it -/
def runChange (env : Environment) (p : Project)
    (change : Store → Except Failure (Console.Item × Store)) : Outcome × Environment :=
  orCrash [] env (change (env.store p.storePath)) fun r =>
    (⟨0, [r.1], none⟩, env.putStore p.storePath r.2)

/-- one command -/
def run (env : Environment) : Command → Outcome × Environment
  | .analyze place target persist limit =>
    inProject Console.banner env place fun p env =>
      orCrash Console.banner env (env.engine p) fun e =>
        if persist then runKept env p e target limit else runShown env e target limit
  | .watch place interval cycles =>
    inProject Console.banner env place fun p env =>
      let p := watchedEvery interval p
      orCrash Console.banner env (env.engine p) fun e => runWatch env p e cycles
  | .dashboard place => inProject Console.banner env place fun p env => runDashboard env p
  | .resolve place prints =>
    inProject [] env place fun p env => runChange env p fun s =>
      (s.resolveViolations env.now prints).map fun r => (Console.resolved r.1, r.2)
  | .cleanup place days =>
    inProject [] env place fun p env => runChange env p fun s =>
      (s.cleanup p.keeping env.now (days.map Value.int)).map fun r => (Console.removed r.1, r.2)
  | .help => (⟨0, [], none⟩, env)

/-- the program run with some arguments -/
def runArguments (env : Environment) (args : List String) : Outcome × Environment :=
  match read? args with
  | some command => run env command
  | none => (.misused, env)

end Command

end LintLedger
