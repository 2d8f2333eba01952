import LintLedger.Violation

/-!
# Warnings of overlap

What is told when the type analyzer and the linter do each other's work.
-/

namespace LintLedger.Crossover

/-- the ways in which two analyzers overlap -/
inductive WarningKind where
  | typeAwareRule | duplicateViolation | configurationConflict
deriving Repr, DecidableEq, Inhabited

/-- the name of a way to overlap -/
def WarningKind.name : WarningKind → String
  | typeAwareRule => "type-aware-rule"
  | duplicateViolation => "duplicate-violation"
  | configurationConflict => "configuration-conflict"

/-- a warning of overlap -/
structure Warning where
  kind : WarningKind
  severity : Severity
  message : String
  details : String
  suggestion : String
  rules : List String
  files : List Value
deriving Inhabited

end LintLedger.Crossover
