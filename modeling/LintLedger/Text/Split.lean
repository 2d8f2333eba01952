/-!
# Cutting a text at a character

A text with `n` occurrences of the character has `n + 1` pieces; joining them with the character
gives the text back.
-/

namespace LintLedger.Text

/-- the pieces of a run of characters between the occurrences of `sep` -/
def pieces (sep : Char) : List Char → List (List Char)
  | [] => [[]]
  | c :: rest =>
    if c = sep then [] :: pieces sep rest
    else
      match pieces sep rest with
      | [] => [[c]]
      | piece :: more => (c :: piece) :: more

/-- there is always a first piece -/
theorem pieces_ne_nil (sep : Char) (cs : List Char) : pieces sep cs ≠ [] := by
  cases cs with
  | nil => simp [pieces]
  | cons c rest =>
    simp only [pieces]
    split
    · simp
    · split <;> simp

end LintLedger.Text
