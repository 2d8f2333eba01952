import LintLedger.Json.Reader
import LintLedger.Output.Finding
import LintLedger.Path
import LintLedger.Schedule
import LintLedger.Value.Convert

/-!
# Linter output

The linter writes a JSON array with one object per file, each with its messages.  Output that is cut
off or followed by noise is read up to its last closing bracket.  Nothing is assumed of the types of
what stands in it: what cannot be used as it has to be is a fault.
-/

namespace LintLedger.Output

/-- the fault of a text that is no JSON for another reason than its form -/
def jsonFault? : Json.Error → Option Fault
  | .malformed => none
  | .hugeInteger n => some (.hugeInteger n)

/-- the characters up to and with the last closing bracket, unless that is the first character -/
def upToLastBracket? (cs : List Char) : Option (List Char) :=
  let kept := (cs.reverse.dropWhile (· != ']')).reverse
  if kept.length < 2 then none else some kept

/-- the value that linter output holds, if any can be read -/
def lintValue? (cs : List Char) : Except Fault (Option Value) :=
  match Json.readChars cs with
  | .ok v => .ok (some v)
  | .error e =>
    match jsonFault? e, upToLastBracket? cs with
    | some fault, _ => .error fault
    | none, none => .ok none
    | none, some kept =>
      match Json.readChars kept with
      | .ok v => .ok (some v)
      | .error e =>
        match jsonFault? e with
        | some fault => .error fault
        | none => .ok none

/-- the results of single files that linter output holds -/
def lintResults (output : String) : Except Fault (List Value) := do
  match ← lintValue? output.toList with
  | some (.list results) => return results
  | _ => return []

/-- the rule of a message; a fatal message without a rule is one that the file does not parse -/
def messageRule (message : Value) : Except Fault Value := do
  match ← message.get "ruleId" with
  | some .null | none =>
    let fatal ← message.get "fatal"
    return if (fatal.getD .null).truthy then .text "parse-error" else .null
  | some rule => return rule

/-- the category and severity of a rule, which may be anything that can be looked up -/
def ruleClass (rule : Value) : Except Fault (Category × Severity) :=
  if rule.truthy then
    match rule with
    | .text s => .ok (Catalog.lintRule s)
    | _ => rule.key.map fun _ => Catalog.unknownLintRule
  else .ok Catalog.unknownLintRule

/-- whether a rule is one of those that are asked for -/
def isWanted (wanted : Option (List Key)) (rule : Value) : Except Fault Bool :=
  match wanted with
  | none => .ok true
  | some keys => rule.key.map keys.contains

/-- a field of a message, or what stands for it where it is absent or empty -/
def fieldOr (message : Value) (name : String) (default : Value) : Except Fault Value := do
  let v := (← message.get name).getD .null
  return if v.truthy then v else default

/-- the violation that a message stands for, if its rule is asked for -/
def messageFinding (wanted : Option (List Key)) (file : String) (message : Value) :
    Except Fault (Option Violation) := do
  let rule ← messageRule message
  if !(← isWanted wanted rule) then return none
  let wording ← fieldOr message "message" (.text "ESLint violation")
  let (category, severity) ← ruleClass rule
  let line ← (← fieldOr message "line" (.int 1)).toInteger
  let column := (← message.get "column").getD .null
  return some (finding (.text file) (.int line) wording category severity rule wording column)

/-- the violations of one file -/
def fileFindings (root : Path) (wanted : Option (List Key)) (result : Value) :
    Except Fault (List Violation) := do
  let path := (← result.get "filePath").getD (.text "")
  let file := root.textFrom path.display
  let messages ← ((← result.get "messages").getD (.list [])).items
  let found ← messages.mapM (messageFinding wanted file)
  return found.filterMap id

/-- the keys of the rules that are asked for; no rules at all ask for everything -/
def wantedKeys (rules : List Rule) : Option (List Key) :=
  if rules.isEmpty then none else some (rules.map (·.key))

/-- the violations that linter output stands for -/
def lintFindings (root : Path) (only : List Rule) (output : String) :
    Except Fault (List Violation) := do
  let results ← lintResults output
  let found ← results.mapM (fileFindings root (wantedKeys only))
  return found.flatten

end LintLedger.Output
