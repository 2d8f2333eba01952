import LintLedger.Analyzer.Options
import LintLedger.Output.Exports

/-!
# The detector of unused exports

Looks for exports that nothing imports, in the project that `tsconfig.json` of the target describes.
-/

namespace LintLedger.Analyzer

/-- the command that looks for unused exports -/
def exportsCommand (target : Path) : List String :=
  [
    "npx", "ts-unused-exports", (target.child "tsconfig.json").text, "--showLineNumber",
    "--allowUnusedTypes", "--excludeDeclarationFiles", "--ignoreTestFiles",
    "--ignoreLocallyUsed"]

/-- what the output of the detector stands for: 1 is its way of saying that it found something, but
not if all that it wrote is a complaint -/
def exportsOutcome (w : Workspace) (command : List String) (result : ToolResult) :
    Except Failure (List Violation) := do
  let o ← result.outcome
  if o.status ≠ 0 && o.status ≠ 1 then
    throw (.tool (commandName command) (orElse o.stderr o.stdout) o.status)
  if o.status = 1 && Text.strip o.stdout = "" && o.stderr ≠ "" then
    throw (.tool (commandName command) o.stderr o.status)
  orFail (Output.exportFindings w.root o.stdout)

/-- one run of the detector -/
def runExports (w : Workspace) (runner : Runner) (target : Path) (options : Options) :
    Finding × Runner :=
  match options.command? with
  | .error f => ({ outcome := .error (.fault f) }, runner)
  | .ok own =>
    let command := own.getD (exportsCommand target)
    let (result, runner) := runner.run (options.request command) false
    ({ outcome := exportsOutcome w command result, seconds := result.seconds }, runner)

end LintLedger.Analyzer
