import LintLedger.Proofs.Analyzer.Unreadable
import LintLedger.Proofs.Json.Run
import Mathlib

/-!
# Output of the linter that is cut off

Output is read up to its last closing bracket if it cannot be read as a whole.  Behind a list that is complete
that leaves noise away (`lintResults_append`).  Of a list that is cut off it saves nothing, as every bracket in
front of its end closes something within it or stands in a text: the characters up to it are cut off no less
(`isUnreadable_front`).  So of the files that output tells of completely before it is cut off, nothing is
reported (`truncated_output`), and reading fails at most over a number with too many digits
(`holdsRun_of_lintResults`).
-/

namespace LintLedger.Output

open Outcome

variable {root : Path} {only : List Rule} {cs front back noise : List Char} {results : List Value}

/-! ### The last closing bracket -/

theorem upToLastBracket?_isPrefix {kept : List Char} (h : upToLastBracket? cs = some kept) : kept <+: cs := by
  unfold upToLastBracket? at h
  dsimp only at h
  split at h
  · cases h
  · cases h
    exact List.rdropWhile_prefix ..

/-- up to the last closing bracket of a list with noise behind it, in which there is none, stands that list -/
theorem upToLastBracket?_append (some : cs ≠ []) (quiet : ']' ∉ noise) :
    upToLastBracket? (cs ++ [']'] ++ noise) = .some (cs ++ [']']) := by
  have dropped : ∀ c ∈ noise.reverse, (c != ']') = true := fun c hc =>
    bne_iff_ne.mpr fun same => quiet (same ▸ List.mem_reverse.mp hc)
  have kept : ((cs ++ [']'] ++ noise).reverse.dropWhile (· != ']')).reverse = cs ++ [']'] := by
    rw [List.reverse_append, List.dropWhile_append_of_pos dropped, List.reverse_concat,
      List.dropWhile_cons_of_neg (by simp), List.reverse_cons, List.reverse_reverse]
  have long : ¬(cs ++ [']']).length < 2 := by
    obtain ⟨c, cs, rfl⟩ := List.exists_cons_of_ne_nil some
    simp
  unfold upToLastBracket?
  rw [kept]
  exact if_neg long

/-! ### Noise behind a list -/

/-- noise without closing brackets behind a list changes nothing of what is read -/
theorem lintResults_append (whole : Json.readChars (cs ++ [']']) = .ok (.list results)) (quiet : ']' ∉ noise) :
    lintResults (String.ofList (cs ++ [']'] ++ noise)) = .ok results := by
  have some : cs ≠ [] := by
    rintro rfl
    cases whole
  refine bind_eq_ok.mpr ⟨.some (.list results), ?_, rfl⟩
  unfold lintValue?
  rw [String.toList_ofList, Json.readChars_append whole]
  by_cases blank : Json.skip noise = []
  · rw [if_pos blank]
  · rw [if_neg blank, upToLastBracket?_append some quiet]
    dsimp only [jsonFault?]
    rw [whole]

/-! ### Lists that are cut off -/

theorem skip_ne_nil_iff : Json.skip cs ≠ [] ↔ ∃ c ∈ cs, Json.isSpace c = false := by
  unfold Json.skip
  rw [Ne, List.dropWhile_eq_nil_iff]
  simp

theorem readsList_front (whole : Json.readChars (front ++ back) = .ok (.list results))
    (missing : ∃ c ∈ back, Json.isSpace c = false) : readsList front = false := by
  obtain ⟨e, failed⟩ := Json.readChars_front whole (skip_ne_nil_iff.mpr missing)
  unfold readsList
  rw [failed]

/-- no list can be read from a list that is cut off, neither as a whole nor up to its last closing bracket -/
theorem isUnreadable_front (whole : Json.readChars (front ++ back) = .ok (.list results))
    (missing : ∃ c ∈ back, Json.isSpace c = false) : isUnreadable (String.ofList front) = true := by
  unfold isUnreadable
  rw [String.toList_ofList, readsList_front whole missing, Bool.not_false, Bool.true_and, Option.isNone_iff_eq_none,
    Option.filter_eq_none_iff]
  intro kept cut
  -- what stands up to the bracket is cut off itself, and even more of the list is missing
  obtain ⟨more, own⟩ := upToLastBracket?_isPrefix cut
  rw [← own, List.append_assoc] at whole
  obtain ⟨c, hc, filled⟩ := missing
  simp [readsList_front whole ⟨c, List.mem_append_right more hc, filled⟩]

/-- reading output fails only over a number with too many digits that stands in it -/
theorem holdsRun_of_lintResults {f : Fault} (h : lintResults (String.ofList cs) = .error f) : Json.HoldsRun cs := by
  have huge : ∀ {e : Json.Error} {f : Fault}, jsonFault? e = some f → ∃ digits, e = .hugeInteger digits := by
    intro e f h
    cases e with
    | malformed => cases h
    | hugeInteger digits => exact ⟨digits, rfl⟩
  unfold lintResults at h
  rw [String.toList_ofList] at h
  rcases bind_eq_error.mp h with failed | ⟨value, -, made⟩
  · unfold lintValue? at failed
    split at failed
    · cases failed
    · rename_i e read
      split at failed
      · rename_i fault same
        obtain ⟨digits, rfl⟩ := huge same
        exact Json.holdsRun_of_readChars read
      · cases failed
      · rename_i kept _ cut
        split at failed
        · cases failed
        · rename_i e again
          split at failed
          · rename_i fault same
            obtain ⟨digits, rfl⟩ := huge same
            exact (Json.holdsRun_of_readChars again).of_isInfix (upToLastBracket?_isPrefix cut).isInfix
          · cases failed
  · split at made <;> cases made

/-- **Output that is cut off.**  Of a list of results that is cut off anywhere before its end, nothing is
reported, unless more digits stand in it in a row than are read as a number, over which the reading may fail.
So what the first results tell is reported in front of all else just if they tell nothing, however far behind
them the output is cut off.  Anything without closing brackets that stands behind a complete list takes nothing
away from what is reported. -/
theorem truncated_output (whole : Json.readChars (front ++ back) = .ok (.list results))
    (missing : ∃ c ∈ back, Json.isSpace c = false) :
    (lintFindings root only (String.ofList front) = .ok [] ∨ Json.HoldsRun front ∧
      ∃ digits, lintFindings root only (String.ofList front) = .error (.hugeInteger digits)) ∧
    (∀ count found vs, (results.take count).mapM (fileFindings root (wantedKeys only)) = .ok found →
      lintFindings root only (String.ofList front) = .ok vs → (found.flatten <+: vs ↔ found.flatten = [])) ∧
    ∀ cs noise, front ++ back = cs ++ [']'] → ']' ∉ noise →
      lintFindings root only (String.ofList (front ++ back ++ noise)) =
        lintFindings root only (String.ofList (front ++ back)) := by
  have nothing : lintFindings root only (String.ofList front) = .ok [] ∨ Json.HoldsRun front ∧
      ∃ digits, lintFindings root only (String.ofList front) = .error (.hugeInteger digits) := by
    unfold lintFindings
    rcases lintResults_of_isUnreadable (isUnreadable_front whole missing) with none | ⟨digits, failed⟩
    · exact .inl (by rw [none]; rfl)
    · exact .inr ⟨holdsRun_of_lintResults failed, digits, by rw [failed]; rfl⟩
  refine ⟨nothing, fun count found vs told reported => ?_, fun cs noise ends quiet => ?_⟩
  · rcases nothing with none | ⟨-, digits, failed⟩
    · rw [none] at reported
      cases reported
      exact List.prefix_nil
    · rw [failed] at reported
      cases reported
  · rw [ends] at whole ⊢
    have alone : lintResults (String.ofList (cs ++ [']'] ++ [])) = .ok results :=
      lintResults_append whole List.not_mem_nil
    rw [List.append_nil] at alone
    unfold lintFindings
    rw [lintResults_append whole quiet, alone]

/-- output about two files, as far as the name of the second one -/
def begun : List Char :=
  ("[\x7b\"filePath\":\"a.ts\",\"messages\":[\x7b\"ruleId\":\"no-var\",\"message\":\"m\",\"line\":2\x7d]\x7d," ++
    "\x7b\"filePath\":\"b").toList

/-- what is missing of it -/
def lost : List Char := ".ts\",\"messages\":[]\x7d]".toList

theorem exists_of_readsList (h : readsList cs = true) : ∃ results, Json.readChars cs = .ok (.list results) := by
  unfold readsList at h
  split at h
  · rename_i results read
    exact ⟨results, read⟩
  · cases h

theorem truncated_output_begun : readsList (begun ++ lost) = true ∧
    lintFindings ⟨.root, ["p"]⟩ [] (String.ofList begun) = .ok [] := by
  have whole : readsList (begun ++ lost) = true := by decide +kernel
  obtain ⟨results, read⟩ := exists_of_readsList whole
  obtain ⟨nothing, -⟩ := @truncated_output ⟨.root, ["p"]⟩ [] begun lost results read ⟨'.', by decide, by decide⟩
  refine ⟨whole, nothing.resolve_right ?_⟩
  rintro ⟨run, -⟩
  exact absurd run.digitLimit_lt_length (by decide +kernel)

/-- the violation in the first file, of which output tells completely before it is cut off, is lost -/
theorem complete_part_lost :
    ((lintResults (String.ofList (begun ++ lost))).toOption.map fun results =>
      ((results.take 1).mapM (fileFindings ⟨.root, ["p"]⟩ none)).toOption.map fun found => found.flatten.length) =
        some (some 1) ∧
    (lintFindings ⟨.root, ["p"]⟩ [] (String.ofList begun)).toOption.map List.length = some 0 :=
  ⟨by decide +kernel, by decide +kernel⟩

end LintLedger.Output
