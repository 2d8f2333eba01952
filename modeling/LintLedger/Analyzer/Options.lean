import LintLedger.Tool
import LintLedger.Yaml.Read

/-!
# Options of an analyzer

What only one analyzer understands.  An option may name the command to start instead of the
analyzer's own, and the seconds that the command may take.
-/

namespace LintLedger.Analyzer

/-- options under their names -/
abbrev Options := List (Value × Value)

/-- an option, absent counting as nothing -/
def Options.get (options : Options) (name : String) : Value :=
  (Value.find? options name).getD .null

/-- options with more options laid over them -/
def Options.withMore (options more : Options) : Options := Yaml.overlay options more

/-- the command that the options name, if they name one -/
def Options.command? (options : Options) : Except Fault (Option (List String)) :=
  let v := options.get "command"
  if v.truthy then v.items.map fun items => some (items.map Value.display) else .ok none

/-- a run of a command as far as the options say how long it may take -/
def Options.request (options : Options) (command : List String) : ToolRequest :=
  ⟨command, options.get "process_timeout"⟩

/-- the name of a command -/
def commandName (command : List String) : String := command.headD ""

/-- where an analyzer looks: the root of the project and the files that are there -/
structure Workspace where
  root : Path
  files : Directory
deriving Inhabited

/-- what an analyzer found with a tool, and what the run of the tool was like -/
structure Finding where
  outcome : Except Failure (List Violation)
  seconds : Rat := 0

/-- the first of two texts that is not empty -/
def orElse (first second : String) : String := if first = "" then second else first

end LintLedger.Analyzer
