import LintLedger.Output.Finding
import LintLedger.Output.Location
import LintLedger.Path
import LintLedger.Text.Lines
import LintLedger.Value.Convert

/-!
# Compiler output

The type analyzer writes one diagnostic on a line: `file(line,column): error TS2322: message`.
Lines that hold none are passed over.
-/

namespace LintLedger.Output

/-- one diagnostic of the compiler -/
structure Diagnostic where
  location : Location
  isError : Bool
  code : String
  message : String
deriving Repr, DecidableEq

/-- the level in front, and what follows the blanks that have to stand behind it -/
def levelThen (cs : List Char) : Option (Bool × List Char) := do
  let (isError, rest) ←
    match afterWord "error".toList cs with
    | some rest => some (true, rest)
    | none => (afterWord "warning".toList cs).map fun rest => (false, rest)
  if rest.head?.any Text.isBlank then some (isError, Text.dropBlanks rest) else none

/-- level, code and message of a diagnostic -/
def diagnosticBody (cs : List Char) : Option (Bool × String × String) := do
  let (isError, cs) ← levelThen cs
  let cs ← afterWord ['T', 'S'] cs
  let (digits, cs) ← digitsThen cs
  let cs ← after ':' cs
  let message := Text.dropBlanks cs
  if message.isEmpty then none
  else some (isError, String.ofList ('T' :: 'S' :: digits), Text.strip (String.ofList message))

/-- the diagnostic on a line, if there is one -/
def Diagnostic.ofLine? (line : List Char) : Option Diagnostic :=
  (locate '(' ')' diagnosticBody (Text.trim line)).map fun p => ⟨p.1, p.2.1, p.2.2.1, p.2.2.2⟩

/-- the violation that a diagnostic stands for -/
def Diagnostic.violation (root : Path) (d : Diagnostic) : Except Fault Violation := do
  let line ← integerOfDigits d.location.line
  let column ← integerOfDigits d.location.column
  return finding (.text (root.textFrom d.location.file)) (.int line) (.text d.message)
    (Catalog.compilerCode d.code) (if d.isError then .error else .warn)
    (.text d.code) (.text d.message) (.int column)

/-- the violations that compiler output stands for -/
def compilerFindings (root : Path) (output : String) : Except Fault (List Violation) :=
  ((Text.lines output.toList).filterMap Diagnostic.ofLine?).mapM (Diagnostic.violation root)

end LintLedger.Output
