import LintLedger.Violation
import LintLedger.Digest.Sha256

/-!
# Fingerprints

A violation is known again by seven parts: file, line, message (or code if there is none), rule,
category, severity and source.  They are joined by the unit separator `U+001F`, and the digest of
that text is the fingerprint.
-/

namespace LintLedger.Violation

/-- the character between the parts -/
def partSeparator : String := "\x1f"

/-- a part that has to be a text -/
def textPart (position : Nat) : Value → Except Fault String
  | .text s => .ok s
  | v => .error (.notJoinable position v.kind)

/-- the seven parts that tell a violation from others -/
def identityParts (v : Violation) : Except Fault (List String) := do
  let message ← if v.message.truthy then textPart 2 v.message else pure v.code.display
  let rule ← if v.rule.truthy then textPart 3 v.rule else pure ""
  return [v.file.display, v.line.display, message, rule, v.categoryValue.display,
    v.severityValue.display, v.sourceValue.display]

/-- the text of which the fingerprint is the digest -/
def identityText (v : Violation) : Except Fault String :=
  v.identityParts.map (String.intercalate partSeparator)

/-- the digest that identifies a violation across runs -/
def fingerprint (v : Violation) : Except Fault String := v.identityText.map Digest.sha256

end LintLedger.Violation
