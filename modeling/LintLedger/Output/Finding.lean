import LintLedger.Catalog

/-!
# Findings of the built-in analyzers

What a built-in analyzer makes of one message of its tool: a violation with the advice that goes
with its category.  The source is stamped on it later.
-/

namespace LintLedger.Output

/-- a violation made from one message of a tool -/
def finding (file line code : Value) (category : Category) (severity : Severity)
    (rule message column : Value) : Violation where
  file := file
  line := line
  code := code
  category := .known category
  severity := .known severity
  source := .known .custom
  column := column
  rule := rule
  message := message
  fix := Value.ofText? (Catalog.fixFor? category)

end LintLedger.Output
