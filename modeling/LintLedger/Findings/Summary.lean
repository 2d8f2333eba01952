import LintLedger.Distinct
import LintLedger.Report

/-!
# Summaries

How many findings there are of each severity, source and category, which files have most of them,
and which runs failed.
-/

namespace LintLedger.Findings

/-- names with their counts, in the order in which the names first came -/
abbrev Counts := List (String × Nat)

/-- the count of a name -/
def countOf (counts : Counts) (name : String) : Nat := (counts.lookup name).getD 0

/-- what is told of a batch of findings -/
structure Summary where
  total : Nat
  bySeverity : Counts
  bySource : Counts
  byCategory : Counts
  topFiles : List (Value × Nat)
  errors : List String
deriving Inhabited

/-- the names of the classes of a finding -/
structure ClassNames where
  severity : String
  source : String
  category : String

/-- the names of the classes of a finding, all of which have to be known -/
def classNames (v : Violation) : Except Fault ClassNames := do
  let severity ← v.severity.nameOf Severity.name
  let source ← v.source.nameOf Source.name
  let category ← v.category.nameOf Category.name
  return ⟨severity, source, category⟩

/-- how often each name occurs -/
def countNames (names : List String) : Counts := tallyBy id names

/-- how often each severity occurs, those that do not occur included -/
def countSeverities (names : List String) : Counts :=
  Severity.all.map fun s => (s.name, names.count s.name)

/-- the `n` files with the most findings; of files with equally many the one that came first -/
def topFiles (n : Nat) (files : List (Key × Value)) : List (Value × Nat) :=
  let counted := (tallyBy Prod.fst files).map fun e => (e.1.2, e.2)
  (counted.mergeSort fun a b => b.2 ≤ a.2).take n

/-- what is told of a batch of findings and the runs that it came from -/
def summarize (violations : List Violation) (reports : List Report) (top : Nat) :
    Except Fault Summary := do
  let names ← violations.mapM classNames
  let files ← violations.mapM fun v => do
    let key ← v.file.key
    return (key, v.file)
  return {
    total := violations.length
    bySeverity := countSeverities (names.map (·.severity))
    bySource := countNames (names.map (·.source))
    byCategory := countNames (names.map (·.category))
    topFiles := topFiles top files
    errors := (reports.filter fun r => !r.success).map fun r => r.engine ++ ": " ++ r.failure }

end LintLedger.Findings
