import LintLedger.Analyzer.Options
import LintLedger.Output.Lint

/-!
# The linter

Runs the linter either for all of its rules at once or, by turns, for one rule in each run, in which
case what the other rules found last is still known.
-/

namespace LintLedger.Analyzer

/-- the rules that are checked if no others are set -/
def defaultLintRules : List String :=
  [
    "no-console", "no-debugger", "prefer-const", "no-var", "no-unused-vars",
    "no-restricted-imports", "@typescript-eslint/no-unused-vars",
    "@typescript-eslint/no-floating-promises", "@typescript-eslint/prefer-nullish-coalescing",
    "@typescript-eslint/prefer-optional-chain", "unicorn/prefer-node-protocol",
    "unicorn/prefer-module", "unicorn/prefer-array-flat-map",
    "unicorn/prefer-string-starts-ends-with", "unicorn/prefer-number-properties",
    "unicorn/prefer-spread", "unicorn/explicit-length-check", "unicorn/no-useless-undefined"]

/-- the rules of a linter and whose turn it is -/
structure LintState where
  rules : List Rule
  schedule : Schedule
deriving Inhabited

/-- the rules that options set, or the default ones -/
def lintRules (options : Options) : Except Fault (List Rule) :=
  match options.get "rules" with
  | .list rules => rules.mapM Rule.ofValue
  | _ => .ok (defaultLintRules.map Rule.ofName)

/-- a linter that has checked nothing -/
def LintState.start (name : String) (options : Options) (zeroThreshold reducedInterval : Int) :
    Except Failure LintState := do
  if zeroThreshold < 1 || reducedInterval < 1 then throw .badBackoff
  let rules ← orFail (lintRules options)
  return ⟨rules, Schedule.start name zeroThreshold.toNat reducedInterval.toNat rules⟩

/-- the command that lints a target -/
def lintCommand (maxWarnings : Int) (target : Path) : List String :=
  [
    "npx", "eslint", "--format", "json", "--max-warnings", (Value.int maxWarnings).display,
    target.text]

/-- the command that options ask for -/
def lintCommandOf (options : Options) (target : Path) : Except Fault (List String) := do
  match ← options.command? with
  | some command => return command
  | none =>
    let most ← ((Value.find? options "max_warnings").getD (.int 500)).toInteger
    return lintCommand most target

/-- what the output of the linter stands for: from 2 on it has failed -/
def lintOutcome (w : Workspace) (command : List String) (only : List Rule) (result : ToolResult) :
    Except Failure (List Violation) := do
  let o ← result.outcome
  if 2 ≤ o.status then
    throw (.tool (commandName command) (orElse o.stderr "eslint configuration error") o.status)
  if Text.strip o.stdout = "" then return []
  orFail (Output.lintFindings w.root only o.stdout)

/-- one run of the linter for some of its `count` rules; a run for all of them takes up whatever
else the linter reports -/
def runLint (w : Workspace) (runner : Runner) (target : Path) (options : Options) (count : Nat)
    (rules : List Rule) : Finding × Runner :=
  match lintCommandOf options target with
  | .error f => ({ outcome := .error (.fault f) }, runner)
  | .ok command =>
    let (result, runner) := runner.run (options.request command) false
    let only := if rules.length < count then rules else []
    ({ outcome := lintOutcome w command only result, seconds := result.seconds }, runner)

/-- whether rules are checked by turns -/
def goesByTurns (options : Options) : Bool :=
  ((Value.find? options "round_robin").getD (.bool true)).truthy

/-- one run of the linter -/
def runLinter (w : Workspace) (runner : Runner) (target : Path) (options : Options)
    (s : LintState) : Finding × Runner × LintState :=
  let lint := runLint w runner target options s.rules.length
  if goesByTurns options then
    let (finding, runner) : Finding × Runner :=
      match s.schedule.upcoming? with
      | none => ({ outcome := .ok [] }, runner)
      | some rule => lint [rule]
    let (result, schedule) := s.schedule.runCycle fun _ => finding.outcome
    ({ finding with outcome := result.map Prod.snd }, runner, { s with schedule := schedule })
  else
    let (finding, runner) := lint s.rules
    (finding, runner, s)

end LintLedger.Analyzer
