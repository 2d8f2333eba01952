import LintLedger.Proofs.Json.Blanks
import LintLedger.Proofs.Json.Closed
import LintLedger.Proofs.Output.Truncated
import Mathlib

/-!
# Noise behind linter output

The linter's array may be followed by anything that another program writes.  Reading all of it as JSON fails,
and what stands up to the last closing bracket is the array itself, as long as there is no such bracket in what
follows: so nothing changes of what is reported (`lintFindings_append`).  Over a number with too many digits the
reading fails with that noise as it does without it.
-/

namespace LintLedger.Output

open Outcome

variable {cs noise : List Char} {results : List Value}

/-- whether a text is a JSON array: a list can be read, or there is a number with too many digits in it -/
def IsArray (s : String) : Prop :=
  (∃ results, Json.readChars s.toList = .ok (.list results)) ∨
    Json.Closes s.toList ∧ ∃ digits, Json.readChars s.toList = .error (.hugeInteger digits)

/-- a list with blanks behind it, and noise behind those, is read as the list alone -/
theorem lintResults_of_list (read : Json.readChars cs = .ok (.list results)) (quiet : ']' ∉ noise) :
    lintResults (String.ofList (cs ++ noise)) = .ok results := by
  obtain ⟨front, blanks, rfl, blank⟩ := Json.closes_of_list read
  have alone : Json.readChars (front ++ [']']) = .ok (.list results) := by
    refine Json.readChars_trimmed blank ?_
    rw [List.append_assoc]
    exact read
  have quiet' : ']' ∉ blanks ++ noise := by
    rw [List.mem_append]
    rintro (within | behind)
    · exact absurd (Json.skip_eq_nil_iff.mp blank _ within) (by decide)
    · exact quiet behind
  have same := lintResults_append alone quiet'
  simpa using same

/-- a number with too many digits fails the reading whatever stands behind the list that it is in -/
theorem lintResults_of_stops {digits : ℕ} (stops : Json.readChars cs = .error (.hugeInteger digits)) :
    lintResults (String.ofList cs) = .error (.hugeInteger digits) := by
  unfold lintResults lintValue?
  rw [String.toList_ofList, stops]
  rfl

/-- **Noise behind an array.**  Whatever the root and the rules that are asked for, an array with anything behind
it that holds no closing bracket tells the same violations as the array alone, or fails as that does. -/
theorem lintFindings_append (root : Path) (only : List Rule) (array noise : String) (whole : IsArray array)
    (quiet : ']' ∉ noise.toList) :
    lintFindings root only (array ++ noise) = lintFindings root only array := by
  have same : lintResults (array ++ noise) = lintResults array := by
    rw [← String.ofList_toList (s := array ++ noise), String.toList_append]
    nth_rewrite 2 [← String.ofList_toList (s := array)]
    rcases whole with ⟨results, read⟩ | ⟨close, digits, stops⟩
    · have alone : lintResults (String.ofList (array.toList ++ [])) = .ok results :=
        lintResults_of_list read List.not_mem_nil
      rw [List.append_nil] at alone
      rw [lintResults_of_list read quiet, alone]
    · rw [lintResults_of_stops (Json.readChars_append_of_stops stops close), lintResults_of_stops stops]
  unfold lintFindings
  rw [same]

/-- an array about one file, in whose texts there are brackets, with a new line behind it -/
def bracketed : String :=
  "[\x7b\"filePath\":\"src/[id].ts\",\"messages\":[\x7b\"ruleId\":\"no-var\",\"message\":\"a[0] ]\","
    ++ "\"line\":2\x7d]\x7d]\n"

/-- a warning that the runtime of the linter writes behind it, as if another list began -/
def warning : String := "[1, \x7b(node:123) Warning: \"deprecated"

theorem lintFindings_append_warning :
    (IsArray bracketed ∧ ']' ∉ warning.toList) ∧
      lintFindings ⟨.root, ["p"]⟩ [.ofName "no-var"] (bracketed ++ warning) =
        lintFindings ⟨.root, ["p"]⟩ [.ofName "no-var"] bracketed := by
  have whole : IsArray bracketed := .inl (exists_of_readsList (by decide +kernel))
  have quiet : ']' ∉ warning.toList := by decide +kernel
  exact ⟨⟨whole, quiet⟩, lintFindings_append _ _ _ _ whole quiet⟩

end LintLedger.Output
