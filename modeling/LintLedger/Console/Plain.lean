import LintLedger.Console.Item

/-!
# Plain lines

Items of the console as lines without markup, for a console that knows no styles.
-/

namespace LintLedger.Console

/-- the words of the markup -/
def markupWords : List String :=
  let words := ["bold", "bold cyan", "success", "warning", "error", "info", "muted"]
  words ++ words.map ("/" ++ ·)

/-- a text without its markup; a bracket that begins no word of the markup stays -/
def withoutMarkup : List Char → List Char
  | [] => []
  | c :: rest =>
    let word := rest.takeWhile (· != ']')
    if c = '[' && markupWords.contains (String.ofList word) then
      withoutMarkup (rest.drop (word.length + 1))
    else c :: withoutMarkup rest
termination_by cs => cs.length
decreasing_by all_goals (simp; try omega)

/-- a text without its markup -/
def plain (s : String) : String := String.ofList (withoutMarkup s.toList)

/-- the cells of a row beside each other -/
def plainRow (row : List String) : String := String.intercalate "  " (row.map plain)

/-- an item as lines -/
def Item.lines : Item → List String
  | .text s => [plain s]
  | .status s => [plain s]
  | .panel title body => title.toList.map plain ++ (body.splitOn "\n").map fun l => "  " ++ plain l
  | .table title headers rows =>
    plain title :: ("  " ++ plainRow headers) :: rows.map fun r => "  " ++ plainRow r

end LintLedger.Console
