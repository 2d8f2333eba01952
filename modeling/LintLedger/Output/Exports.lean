import LintLedger.Output.Finding
import LintLedger.Output.Location
import LintLedger.Path
import LintLedger.Text.Lines
import LintLedger.Value.Convert

/-!
# Unused exports

The detector of unused exports writes one entry on a line: `file[line,column]: name, name`.  The
line that counts the modules holds no entry.
-/

namespace LintLedger.Output

/-- one entry of the detector: a place and the names that nothing imports -/
structure ExportEntry where
  location : Location
  names : List String
deriving Repr, DecidableEq

/-- the names behind a place, if anything stands there -/
def exportNames (cs : List Char) : Option (List String) :=
  if cs.isEmpty then none
  else
    some (((Text.pieces ',' cs).map fun name => Text.strip (String.ofList name)).filter
      fun name => name != "")

/-- the words of the line that counts the modules -/
def countingWords : List Char := "modules with unused exports".toList

/-- whether a word stands anywhere in a run of characters -/
def holds (word : List Char) : List Char → Bool
  | [] => word.isEmpty
  | c :: rest => word.isPrefixOf (c :: rest) || holds word rest

/-- the entry on a line, if there is one -/
def ExportEntry.ofLine? (line : List Char) : Option ExportEntry :=
  let line := Text.trim line
  if holds countingWords line then none
  else (locate '[' ']' exportNames line).map fun p => ⟨p.1, p.2⟩

/-- the violation that an unused name stands for -/
def ExportEntry.violation (root : Path) (l : Location) (name : String) :
    Except Fault Violation := do
  let line ← integerOfDigits l.line
  let column ← integerOfDigits l.column
  return finding (.text (root.textFrom l.file)) (.int line) (.text name) .unusedExport .info
    (.text "unused-export")
    (.text ("Unused export '" ++ name ++ "' - consider removing if not needed")) (.int column)

/-- the violations that an entry stands for, one for each name -/
def ExportEntry.violations (root : Path) (e : ExportEntry) : Except Fault (List Violation) :=
  e.names.mapM (ExportEntry.violation root e.location)

/-- the violations that the output of the detector stands for -/
def exportFindings (root : Path) (output : String) : Except Fault (List Violation) :=
  (((Text.lines output.toList).filterMap ExportEntry.ofLine?).mapM
    (ExportEntry.violations root)).map List.flatten

end LintLedger.Output
