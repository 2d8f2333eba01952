import LintLedger.Directory
import LintLedger.Failure
import LintLedger.Settings
import LintLedger.Text.Lines
import LintLedger.Yaml.Read

/-!
# Settings files

Settings are read from a file that is named, or else from the nearest file of a known name; without
a file the defaults hold.  What a file says of an analyzer is laid over the defaults of that
analyzer, one setting at a time.
-/

namespace LintLedger.Settings

/-- the names of settings files, the first of them counting most -/
def fileNames : List String :=
  ["qualityiq.yaml", "qualityiq.yml", ".qualityiq.yaml", ".qualityiq.yml"]

/-- the settings of an analyzer as a map -/
def analyzerEntries (s : AnalyzerSettings) : List (Value × Value) :=
  [
    (.text "enabled", .bool s.enabled),
    (.text "priority", .int s.priority),
    (.text "timeout", match s.timeout with
      | some x => .float x
      | none => .null),
    (.text "allow_failure", .bool s.allowFailure),
    (.text "options", .map s.options)]

/-- the defaults of all analyzers as a map -/
def defaultEntries : List (Value × Value) :=
  defaultAnalyzers.map fun e => (.text e.1, .map (analyzerEntries e.2))

/-- the settings under a key of a map of maps, with more settings laid over them; nothing said leaves
them as they are -/
def layOver (base : List (Value × Value)) (key said : Value) :
    Except Fault (List (Value × Value)) := do
  let old := match base.find? fun e => e.1.key? == key.key? with
    | some (_, .map es) => es
    | _ => []
  let new ← if said.truthy then said.entries else .ok []
  return Value.putEntry base key (.map (Yaml.overlay old new))

/-- the entries of a settings file, its analyzers laid over the defaults -/
def layered (v : Value) : Except Fault (List (Value × Value)) := do
  let v := if v.truthy then v else .map []
  let engines ← v.get "engines"
  let es ← v.entries
  match engines with
  | some (.map engines) =>
    let merged ← engines.foldlM (fun acc e => layOver acc e.1 e.2) defaultEntries
    return Value.putEntry es (.text "engines") (.map merged)
  | _ => return es

/-- whether a key is a text -/
def isName : Value → Bool
  | .text _ => true
  | _ => false

/-- the settings that a text gives -/
def ofText (s : String) : Except Failure Settings :=
  match Yaml.read (String.ofList (Text.unifyNewlines s.toList)) with
  | .error .malformed => .error .markup
  | .error (.fault f) => .error (.fault f)
  | .ok v => do
    let es ← orFail (layered v)
    if es.any fun e => !isName e.1 then .error .namelessKey
    else
      match read es with
      | .ok settings => .ok settings
      | .error complaints => .error (.settings complaints)

/-- the settings of the file that is named, or else of the nearest one to a folder -/
def load (d : Directory) (file : Option Path) (folder : Path) : Except Failure Settings :=
  let found := match file with
    | some p => if d.hasFile p then some p else none
    | none => d.nearest? fileNames folder.resolve.parts.reverse
  match found.bind d.read? with
  | some text => ofText text
  | none => .ok {}

end LintLedger.Settings
