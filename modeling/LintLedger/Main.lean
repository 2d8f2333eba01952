import LintLedger.Command.Run
import LintLedger.Console.Plain
import LintLedger.Json.Writer
import LintLedger.Store.Snapshot
import Std.Time.DateTime.Timestamp

/-!
# The program

Around a command stands a thin layer that reads the files of the project and its store, and afterwards
prints what the command has put on the console and writes the store back.  The tools that a command
can start are those of the host that the library knows.
-/

namespace LintLedger.Main

/-- the text of a file, if it can be read -/
def readText? (path : String) : IO (Option String) := do
  try return some (← IO.FS.readFile path) catch _ => return none

/-- folders that hold no part of a project -/
def isForeign (name : String) : Bool := name = "node_modules" || name.startsWith "."

/-- the files below a folder, but not below a folder that is foreign to the project -/
partial def filesBelow (folder : String) : IO (List (String × String)) := do
  let entries ← try (← IO.FS.realPath folder).readDir catch _ => pure #[]
  let mut found := []
  for e in entries do
    let path := folder ++ "/" ++ e.fileName
    if ← e.path.isDir then
      if !isForeign e.fileName then found := found ++ (← filesBelow path)
    else if let some text ← readText? path then found := found ++ [(path, text)]
  return found

/-- the settings files of a folder and of those above it -/
def settingsFiles (folder : Path) : IO (List (String × String)) := do
  let mut found := []
  for n in List.range (folder.parts.length + 1) do
    for name in Settings.fileNames do
      let path := (Path.child { folder with parts := folder.parts.take n } name).text
      if let some text ← readText? path then found := found ++ [(path, text)]
  return found

/-- the present moment -/
def now : IO Instant := do
  let t ← Std.Time.Timestamp.now
  let start := (CivilDate.mk 1970 1 1).dayNumber * Instant.dayLength
  return ⟨start + (t.toNanosecondsSinceUnixEpoch.val / 1000).toNat⟩

/-- what a command can see from a folder, with the settings file that is named if one is -/
def environment (folder : Path) (place : Command.Place) : IO Environment := do
  let bare : Environment := ⟨folder, Directory.empty, [], ← now⟩
  let root := (bare.path (place.folder.getD "")).resolve
  let below ← filesBelow root.text
  let above ← settingsFiles root
  let named ← match place.config with
    | some s => do
      let path := (bare.path s).resolve.text
      pure ((← readText? path).toList.map (path, ·))
    | none => pure []
  let files := (below ++ above ++ named).foldl
    (fun d f => d.insert (Path.ofText f.1) f.2) Directory.empty
  return { bare with files := files.insertFolder root }

/-- the store that was written to a file, if there is one -/
def readStore? (path : Path) : IO (Option Store) := do
  match (← readText? path.text).map Json.read with
  | some (.ok v) => return Store.ofSnapshot? v
  | _ => return none

/-- a store written to a file -/
def writeStore (path : Path) (s : Store) : IO Unit := do
  IO.FS.createDirAll (Path.text { path with parts := path.parts.dropLast })
  IO.FS.writeFile path.text (Json.write s.snapshot)

/-- where a command works -/
def placeOf : Command → Command.Place
  | .analyze place _ _ _ | .watch place _ _ | .dashboard place | .resolve place _
  | .cleanup place _ => place
  | .help => ⟨none, none⟩

/-- items printed -/
def print (items : List Console.Item) : IO Unit := do
  for item in items do
    for line in item.lines do
      IO.println line

/-- a failure that was not handled, printed -/
def printFailure (f : Failure) : IO Unit := IO.eprintln (f.kind.name ++ ": " ++ f.message)

/-- what a command can see, with the store of its project as it was written last -/
def environmentWithStore (place : Command.Place) : IO Environment := do
  let env ← environment (Path.ofText (← IO.currentDir).toString) place
  match env.openProject place with
  | (.error _, env) => return env
  | (.ok p, env) =>
    match ← readStore? p.storePath with
    | some s => return env.putStore p.storePath s
    | none => return env

/-- cycles of the watch with real pauses between them, each printed as it ends and its store written -/
partial def follow (p : Project) (limit : Option Int) (done : Nat)
    (scene : Watch.Scene Site Cycle) : IO UInt32 := do
  let (result, scene) := { scene with events := [] }.runOnce (Site.world (← now) (some p.keeping))
  print (scene.events.flatMap Console.event)
  writeStore p.storePath scene.world.store
  match result with
  | .error f => do
    printFailure f
    return 1
  | .ok _ =>
    if limit.any fun n => n ≤ (done + 1 : Int) then
      print [Console.watchEnd scene.watch]
      return 0
    else
      match Failure.ofWait? p.settings.watch.interval with
      | some f => do
        printFailure f
        return 1
      | none => do
        IO.sleep (p.settings.watch.interval * 1000).toUInt32
        follow p limit (done + 1) scene

/-- one command, its console printed and its store written back -/
def perform (command : Command) : IO UInt32 := do
  let (outcome, env) := command.run (← environmentWithStore (placeOf command))
  print outcome.output
  for (path, s) in env.stores do
    writeStore path s
  if let some f := outcome.failure then printFailure f
  return outcome.code.toUInt32

/-- the watch as long as it goes on, if its project can be opened -/
def watch (place : Command.Place) (interval : Option Float) (limit : Option Int) : IO UInt32 := do
  let env ← environmentWithStore place
  let (project, env) := env.openProject place
  match project.bind fun p => (env.engine p).map (p, ·) with
  | .ok (p, e) => do
    let p := Command.watchedEvery interval p
    print (Command.watchHead p)
    follow p limit 0 (Command.watchScene env p e)
  | .error f => do
    print Console.banner
    printFailure f
    return 1

end LintLedger.Main

/-- the program -/
def main (args : List String) : IO UInt32 :=
  match LintLedger.Command.read? args with
  | some (.watch place interval cycles) => LintLedger.Main.watch place interval cycles
  | some command => LintLedger.Main.perform command
  | none => return LintLedger.Outcome.misused.code.toUInt32
