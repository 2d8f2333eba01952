import LintLedger.Proofs.Analyzer.Hearing
import Mathlib

/-!
# Output of the linter that cannot be read

Output that holds no list, neither as a whole nor up to its last closing bracket, is unreadable.  It is a
failure of the run only if the reading stops at a whole number that is too long; otherwise it is taken for a
list without results (`lintResults_of_isUnreadable`).  A run by turns then counts as a check that found
nothing: it succeeds, forgets what it knew of its rule and brings that rule nearer to being backed off
(`unreadable_output`).
-/

namespace LintLedger

open Outcome

namespace Output

/-- whether a list can be read from some characters -/
def readsList (cs : List Char) : Bool :=
  match Json.readChars cs with
  | .ok (.list _) => true
  | _ => false

/-- whether no list can be read from output, neither from the whole nor up to its last closing bracket -/
def isUnreadable (output : String) : Bool :=
  !readsList output.toList && ((upToLastBracket? output.toList).filter readsList).isNone

theorem ne_list_of_readsList {cs : List Char} {v : Value} (none : readsList cs = false)
    (read : Json.readChars cs = .ok v) (results : List Value) : v ≠ .list results := by
  rintro rfl
  unfold readsList at none
  rw [read] at none
  cases none

/-- what is read from unreadable output is no list, unless it holds a whole number that is too long -/
theorem lintValue?_of_isUnreadable {output : String} (h : isUnreadable output = true) :
    (∃ v, lintValue? output.toList = .ok v ∧ ∀ results, v ≠ some (.list results)) ∨
      ∃ digits, lintValue? output.toList = .error (.hugeInteger digits) := by
  unfold isUnreadable at h
  rw [Bool.and_eq_true, Bool.not_eq_true', Option.isNone_iff_eq_none, Option.filter_eq_none_iff] at h
  obtain ⟨whole, front⟩ := h
  unfold lintValue?
  cases read : Json.readChars output.toList with
  | ok v =>
    exact .inl ⟨some v, rfl, fun results same => ne_list_of_readsList whole read results (Option.some.inj same)⟩
  | error e =>
    cases e with
    | hugeInteger digits => exact .inr ⟨digits, rfl⟩
    | malformed =>
      cases prefixed : upToLastBracket? output.toList with
      | none => exact .inl ⟨none, rfl, nofun⟩
      | some kept =>
        -- the same again for what stands in front of the last bracket
        dsimp only [jsonFault?]
        cases again : Json.readChars kept with
        | ok v =>
          have other : readsList kept = false := by simpa using front kept prefixed
          exact .inl ⟨some v, rfl, fun results same =>
            ne_list_of_readsList other again results (Option.some.inj same)⟩
        | error e =>
          cases e with
          | hugeInteger digits => exact .inr ⟨digits, rfl⟩
          | malformed => exact .inl ⟨none, rfl, nofun⟩

/-- unreadable output is taken for a list without results, unless it holds a whole number that is too long -/
theorem lintResults_of_isUnreadable {output : String} (h : isUnreadable output = true) :
    lintResults output = .ok [] ∨ ∃ digits, lintResults output = .error (.hugeInteger digits) := by
  rcases lintValue?_of_isUnreadable h with ⟨v, read, other⟩ | ⟨digits, failed⟩
  · refine .inl (bind_eq_ok.mpr ⟨v, read, ?_⟩)
    split
    · rename_i results
      exact absurd rfl (other results)
    · rfl
  · exact .inr ⟨digits, bind_eq_error.mpr (.inl failed)⟩

end Output

/-! ### Checks that found nothing -/

/-- a rule after a check that found nothing -/
def RuleState.silent (cycle : Int) (e : RuleState) : RuleState :=
  { e with lastChecked := cycle, zeroStreak := e.zeroStreak + 1, found := [] }

namespace Schedule

theorem states_record_nil (t : Schedule) (r : Rule) :
    (t.record r []).states =
      t.states.map fun e => if e.rule.key = r.key then e.silent t.cycle else e := rfl

/-- all that is known after a check that found nothing is what was known of the other rules -/
theorem known_record_nil (t : Schedule) (r : Rule) :
    (t.record r []).known = (t.states.filter fun e => e.rule.key ≠ r.key).flatMap (·.found) := by
  unfold known
  rw [states_record_nil]
  induction t.states with
  | nil => rfl
  | cons e rest ih =>
    rw [List.map_cons, List.flatMap_cons, ih, List.filter_cons]
    by_cases same : e.rule.key = r.key
    · rw [if_pos same, if_neg (by simpa using same)]
      rfl
    · rw [if_neg same, if_pos (by simpa using same), List.flatMap_cons]

end Schedule

namespace Analyzer

variable {w : Workspace} {a : Analyzer} {runner : Runner} {target : String} {options : Options}
  {s : LintState} {o : ToolOutput} {rule : Rule}

/-- output that has not failed and is neither blank nor readable -/
structure IsGarbled (o : ToolOutput) : Prop where
  fine : o.status < 2
  written : Text.strip o.stdout ≠ ""
  unreadable : Output.isUnreadable o.stdout = true

/-- whether the reading of output fails, rather than coming to nothing -/
def failsToRead (o : ToolOutput) : Bool := !(Output.lintResults o.stdout).isOk

/-- what garbled output tells of any rule: nothing, or the reading of it fails -/
theorem IsGarbled.lintAnswer (garbled : IsGarbled o) (only : List Rule) :
    (failsToRead o = false → lintAnswer w only o = .ok []) ∧
      (failsToRead o = true → ∃ f, lintAnswer w only o = .error f) := by
  unfold failsToRead Analyzer.lintAnswer Output.lintFindings
  rw [if_neg garbled.written]
  rcases Output.lintResults_of_isUnreadable garbled.unreadable with none | ⟨digits, failed⟩
  · rw [none]
    exact ⟨fun _ => rfl, nofun⟩
  · rw [failed]
    exact ⟨nofun, fun _ => ⟨_, rfl⟩⟩

/-- so does the check of a rule that hears it -/
theorem IsGarbled.lintCheck (garbled : IsGarbled o) (command : List String) (count : Nat) (r : Rule) :
    (failsToRead o = false → lintCheck w command count o r = .ok []) ∧
      (failsToRead o = true → ∃ f, lintCheck w command count o r = .error f) := by
  obtain ⟨nothing, failed⟩ := garbled.lintAnswer (w := w) (askedRules count [r])
  refine ⟨fun reads => (lintOutcome_eq_ok rfl).mpr ⟨garbled.fine, nothing reads⟩, fun fails => ?_⟩
  obtain ⟨f, failed⟩ := failed fails
  cases answer : Analyzer.lintCheck w command count o r with
  | error f => exact ⟨f, rfl⟩
  | ok found =>
    have read := ((lintOutcome_eq_ok rfl).mp answer).2
    rw [failed] at read
    cases read

/-- output that is no JSON at all -/
def noise : ToolOutput := ⟨"not json", "", 0⟩

theorem isGarbled_noise : IsGarbled noise := ⟨by decide, by decide, by decide⟩

/-- output about one rule -/
def oneMessage : ToolOutput where
  stdout := "[\x7b\"filePath\":\"a.ts\",\"messages\":[\x7b\"ruleId\":\"no-console\",\"line\":1\x7d]\x7d]"
  stderr := ""
  status := 1

/-- a linter of one rule, of which something is known -/
def onceFound : LintState :=
  let s := Schedule.start linterName 5 5 [.ofName "no-console"]
  ⟨[.ofName "no-console"], s.record (.ofName "no-console") [default]⟩

/-- such a linter with a tool that writes noise -/
def faltering : Analyzer :=
  ⟨linterName, .eslint, settingsFor ["no-console"], .linter (.known [{ outcome := .ok noise }] []) onceFound⟩

end Analyzer

end LintLedger
