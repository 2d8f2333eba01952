import LintLedger.Command.Arguments
import LintLedger.Value.Convert

/-!
# Commands

The commands of the program and how they are read from its arguments.
-/

namespace LintLedger

/-- where a command works: the folder of the project and its settings file, as far as they are given -/
structure Command.Place where
  folder : Option String
  config : Option String
deriving Repr, DecidableEq, Inhabited

/-- a command -/
inductive Command where
  /-- one analysis, kept or not, with at most so many violations shown -/
  | analyze (place : Command.Place) (target : Option String) (persist : Bool) (limit : Int)
  | watch (place : Command.Place) (interval : Option Float) (cycles : Option Int)
  | dashboard (place : Command.Place)
  | resolve (place : Command.Place) (fingerprints : List String)
  | cleanup (place : Command.Place) (days : Option Int)
  | help
deriving Inhabited

namespace Command

/-- the switches that every command has -/
def commonSwitches : List Switch :=
  [⟨"--config", "config", none⟩, ⟨"-c", "config", none⟩, ⟨"--dir", "dir", none⟩,
    ⟨"-d", "dir", none⟩, ⟨"--help", "help", some "yes"⟩]

/-- the switches for more words -/
def verboseSwitches : List Switch :=
  [⟨"--verbose", "verbose", some "yes"⟩, ⟨"-v", "verbose", some "yes"⟩]

/-- the switches of an analysis -/
def analyzeSwitches : List Switch :=
  commonSwitches ++ verboseSwitches
    ++ [⟨"--target", "target", none⟩, ⟨"-t", "target", none⟩,
      ⟨"--persist", "persist", some "yes"⟩, ⟨"--no-persist", "persist", some "no"⟩,
      ⟨"--limit", "limit", none⟩, ⟨"-n", "limit", none⟩]

/-- the switches of the watch -/
def watchSwitches : List Switch :=
  commonSwitches ++ verboseSwitches
    ++ [⟨"--interval", "interval", none⟩, ⟨"-i", "interval", none⟩,
      ⟨"--max-cycles", "cycles", none⟩]

/-- the switches of the dashboard -/
def dashboardSwitches : List Switch := commonSwitches ++ verboseSwitches

/-- the switches of cleaning up -/
def cleanupSwitches : List Switch := commonSwitches ++ [⟨"--days", "days", none⟩]

/-- the number that an option gives, if it is given; nothing if it gives none -/
def whole? (a : Arguments) (option : String) : Option (Option Int) :=
  match a.get? option with
  | none => some none
  | some s => (integerOfText s).toOption.map some

/-- the double that an option gives, if it is given; nothing if it gives none -/
def double? (a : Arguments) (option : String) : Option (Option Float) :=
  match a.get? option with
  | none => some none
  | some s => (Decimal.float? s).map some

/-- the place that arguments give -/
def placeOf (a : Arguments) : Place := ⟨a.get? "dir", a.get? "config"⟩

/-- arguments made into a command, or the wish for help; only a command that takes other arguments
than options may have them -/
def build (switches : List Switch) (takesOthers : Bool) (args : List String)
    (make : Arguments → Option Command) : Option Command := do
  let a ← Arguments.read switches args
  if (a.get? "help").isSome then return .help
  let command ← make a
  if a.others.isEmpty = takesOthers then none else return command

/-- the command of a name with its arguments -/
def readNamed (name : String) (args : List String) : Option Command :=
  match name with
  | "analyze" => build analyzeSwitches false args fun a => do
    let limit ← whole? a "limit"
    return .analyze (placeOf a) (a.get? "target") (a.get? "persist" != some "no") (limit.getD 50)
  | "watch" => build watchSwitches false args fun a => do
    let interval ← double? a "interval"
    let cycles ← whole? a "cycles"
    return .watch (placeOf a) interval cycles
  | "dashboard" => build dashboardSwitches false args fun a => some (.dashboard (placeOf a))
  | "resolve" => build commonSwitches true args fun a => some (.resolve (placeOf a) a.others)
  | "cleanup" => build cleanupSwitches false args fun a => do
    let days ← whole? a "days"
    return .cleanup (placeOf a) days
  | _ => none

/-- the command that arguments give, if they give one -/
def read? : List String → Option Command
  | "--help" :: _ => some .help
  | "--" :: name :: args => readNamed name args
  | name :: args => readNamed name args
  | [] => none

end Command

end LintLedger
