import LintLedger.Console.Style

/-!
# What is put on the console

Lines, panels and tables as they are handed over, before anything is laid out.  Their texts may hold
markup.
-/

namespace LintLedger.Console

/-- something put on the console -/
inductive Item where
  | text (markup : String)
  | panel (title : Option String) (body : String)
  | table (title : String) (headers : List String) (rows : List (List String))
  /-- what is shown while something runs -/
  | status (markup : String)
deriving Repr, DecidableEq, Inhabited

/-- a line behind a sign in a style -/
def marked (style sign message : String) : Item := .text (styled style sign ++ " " ++ message)

/-- a line about something that went well -/
def success : String → Item := marked "success" "✔"

/-- a line about something to be wary of -/
def warning : String → Item := marked "warning" "⚠"

/-- a line about something that went wrong -/
def error : String → Item := marked "error" "✖"

/-- a line that only tells -/
def info : String → Item := marked "info" "ℹ"

/-- texts as values -/
def cells (row : List String) : Value := .list (row.map .text)

/-- an item under the word for its sort -/
def Item.record : Item → Value
  | .text s => cells ["text", s]
  | .status s => cells ["status", s]
  | .panel title body => .list [.text "panel", .ofText? title, .text body]
  | .table title headers rows =>
    .list [.text "table", .text title, cells headers, .list (rows.map cells)]

end LintLedger.Console
