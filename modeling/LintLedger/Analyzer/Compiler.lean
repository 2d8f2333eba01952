import LintLedger.Analyzer.Options
import LintLedger.Output.Compiler

/-!
# The type analyzer

Runs the compiler over the project that `tsconfig.json` describes, without writing anything.  Where
there is no such file nothing is run, and that is the only finding.
-/

namespace LintLedger.Analyzer

/-- the project file of the target, or else that of the root -/
def projectFile? (w : Workspace) (target : Path) : Option Path :=
  [target.child "tsconfig.json", w.root.child "tsconfig.json"].find? w.files.hasFile

/-- the command that checks a project -/
def compilerCommand (project : Path) : List String :=
  ["npx", "tsc", "--noEmit", "--pretty", "false", "-p", project.text]

/-- the finding that there is nothing to check -/
def missingProject (target : Path) : Violation :=
  Output.finding (.text "tsconfig.json") (.int 1) (.text "tsconfig.json not found")
    .setupIssue .warn (.text "TS-SETUP-001")
    (.text ("No tsconfig.json found in " ++ target.text
      ++ " or the project root; type analysis skipped.")) .null

/-- what the output of the compiler stands for: 1 and 2 are its ways of saying that it found
something -/
def compilerOutcome (w : Workspace) (command : List String) (result : ToolResult) :
    Except Failure (List Violation) := do
  let o ← result.outcome
  if o.status ≠ 0 && o.status ≠ 1 && o.status ≠ 2 then
    throw (.tool (commandName command) (orElse o.stderr o.stdout) o.status)
  if result.cancelled then throw (.cancelled "analysis")
  orFail (Output.compilerFindings w.root (o.stdout ++ "\n" ++ o.stderr))

/-- one run of the type analyzer -/
def runCompiler (w : Workspace) (runner : Runner) (target : Path) (options : Options) :
    Finding × Runner :=
  let command := options.command?.map fun own =>
    own.orElse fun _ => (projectFile? w target).map compilerCommand
  match command with
  | .error f => ({ outcome := .error (.fault f) }, runner)
  | .ok none => ({ outcome := .ok [missingProject target] }, runner)
  | .ok (some command) =>
    let (result, runner) := runner.run (options.request command) false
    ({ outcome := compilerOutcome w command result, seconds := result.seconds }, runner)

end LintLedger.Analyzer
