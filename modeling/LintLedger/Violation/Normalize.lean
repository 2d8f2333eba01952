import LintLedger.Value.Convert
import LintLedger.Violation

/-!
# Normal form of findings

Before a finding leaves its analyzer its texts lose the blanks at their ends, a text of blanks only
becomes absent where it may be, and the analyzer's own source is stamped on it.
-/

namespace LintLedger.Violation

/-- a field without the blanks at its ends, if it is a text -/
def trimField : Value → Value
  | .text s => .text (Text.strip s)
  | v => v

/-- a finding in normal form -/
def normalize (source : Source) (v : Violation) : Except Fault Violation := do
  let rule ← v.rule.stripped
  let message ← v.message.stripped
  let fix ← v.fix.stripped
  return { v with
    file := trimField v.file
    code := trimField v.code
    rule := rule
    message := message
    fix := fix
    source := .known source }

/-- findings in normal form -/
def normalizeAll (source : Source) (vs : List Violation) : Except Fault (List Violation) :=
  vs.mapM (normalize source)

end LintLedger.Violation
