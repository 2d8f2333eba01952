import LintLedger.Text.Blank
import LintLedger.Violation

/-!
# Problems of a violation

What keeps a violation from being stored, in the order of its fields.  A violation without problems
has a file and a code that are not blank, a positive line, a column that is absent or not negative,
classes that are all known, and a message that is not too long.
-/

namespace LintLedger.Violation

/-- the most characters that a message may have -/
def messageLimit : Nat := 2000

/-- what keeps a violation from being stored -/
inductive Problem where
  | noFile
  | badLine (line : Value)
  | badColumn (column : Value)
  | noCode
  | unknownCategory (category : Value)
  | unknownSeverity (severity : Value)
  | unknownSource (source : Value)
  | longMessage

/-- the wording of a problem -/
def Problem.message : Problem → String
  | noFile => "file path is required"
  | badLine v => s!"line must be a positive integer, got {v.quote}"
  | badColumn v => s!"column must be a non-negative integer, got {v.quote}"
  | noCode => "code is required"
  | unknownCategory v => s!"unknown category {v.quote}"
  | unknownSeverity v => s!"unknown severity {v.quote}"
  | unknownSource v => s!"unknown source {v.quote}"
  | longMessage => "message exceeds 2000 characters"

/-- a text that is not blank -/
def isWritten : Value → Bool
  | .text s => !Text.isBlankText s
  | _ => false

/-- a whole number of at least `least` -/
def isWholeFrom (least : Int) : Value → Bool
  | .int i => least ≤ i
  | _ => false

/-- an absent column, or a whole number that is not negative -/
def isColumn : Value → Bool
  | .null => true
  | v => isWholeFrom 0 v

/-- a text that is too long -/
def isLong : Value → Bool
  | .text s => messageLimit < s.length
  | _ => false

/-- the problem of a class; a list or a map cannot even be looked up -/
def labelProblem {α : Type} (unknown : Value → Problem) : Label α → Except Fault (List Problem)
  | .known _ => .ok []
  | .raw v => v.key.map fun _ => [unknown v]

/-- the problem `p` where a condition is not met -/
def unlessMet (met : Bool) (p : Problem) : List Problem := if met then [] else [p]

/-- all that keeps a violation from being stored -/
def problems (v : Violation) : Except Fault (List Problem) := do
  let category ← labelProblem .unknownCategory v.category
  let severity ← labelProblem .unknownSeverity v.severity
  let source ← labelProblem .unknownSource v.source
  return unlessMet (isWritten v.file) .noFile
    ++ unlessMet (isWholeFrom 1 v.line) (.badLine v.line)
    ++ unlessMet (isColumn v.column) (.badColumn v.column)
    ++ unlessMet (isWritten v.code) .noCode
    ++ category ++ severity ++ source
    ++ unlessMet (!isLong v.wording) .longMessage

end LintLedger.Violation
