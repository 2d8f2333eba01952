import LintLedger.Findings.Summary
import LintLedger.Value.Show

/-!
# Styles of the console

The markup in which severities and their counts are shown.
-/

namespace LintLedger.Console

/-- the style of a severity; what is not known is muted -/
def severityStyle (severity : String) : String :=
  if severity = "error" then "error"
  else if severity = "warn" then "warning"
  else if severity = "info" then "info"
  else "muted"

/-- a text in a style -/
def styled (style text : String) : String := "[" ++ style ++ "]" ++ text ++ "[/" ++ style ++ "]"

/-- the title of a severity -/
def severityTitle : Severity → String
  | .error => "Error"
  | .warn => "Warn"
  | .info => "Info"

/-- the count of each severity with its title, `count` giving the number of a name -/
def labelledCounts (count : String → String) : String :=
  String.intercalate "  " (Severity.all.map fun s =>
    styled (severityStyle s.name) (severityTitle s ++ ": " ++ count s.name))

/-- the count of each severity without more -/
def compactCounts (count : String → String) : String :=
  String.intercalate "/" (Severity.all.map fun s =>
    styled (severityStyle s.name) (count s.name))

/-- the number of a name as text -/
def countText (counts : Findings.Counts) (name : String) : String :=
  Decimal.digitText (Findings.countOf counts name)

end LintLedger.Console
