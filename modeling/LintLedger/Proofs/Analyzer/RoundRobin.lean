import LintLedger.Proofs.Analyzer.Hearing
import LintLedger.Proofs.Distinct
import Mathlib

/-!
# The round robin converges to the whole run

A linter that checks its rules by turns finds, from the end of its first round on, what a run for everything
finds of these rules (`round_robin_converges`).  The findings for single rules are parts of those for
everything, a rule that has not been checked has its turn in the first round whatever the terms of backing
off are, and what is known of a rule afterwards is replaced by the same.  So all that is known is the parts
one after the other, in the order of the rules, and no finding is in two of them (`flatMap_filter_isOf_perm`).
-/

namespace LintLedger

open Outcome

/-- findings by rule are the findings of any of the rules, as long as no two rules are the same -/
theorem flatMap_filter_isOf_perm {rules : List Rule} (apart : (rules.map Rule.key).Nodup)
    (vs : List Violation) :
    (rules.flatMap fun r => vs.filter (·.isOf r)).Perm (vs.filter fun v => rules.any (v.isOf ·)) := by
  induction rules with
  | nil => simp
  | cons r rest ih =>
    obtain ⟨new, apart⟩ := List.nodup_cons.mp apart
    have own : (vs.filter fun v => (r :: rest).any (v.isOf ·)).filter (·.isOf r) =
        vs.filter (·.isOf r) := by
      rw [List.filter_filter]
      refine List.filter_congr fun v _ => ?_
      by_cases h : v.isOf r <;> simp [h]
    have others : (vs.filter fun v => (r :: rest).any (v.isOf ·)).filter (fun v => !v.isOf r) =
        vs.filter fun v => rest.any (v.isOf ·) := by
      rw [List.filter_filter]
      refine List.filter_congr fun v _ => ?_
      by_cases h : v.isOf r
      · -- a finding of this rule is of no other
        have none : rest.any (v.isOf ·) = false := by
          refine List.any_eq_false.mpr fun q hq same => new ?_
          have keys : q.key = r.key :=
            Option.some.inj ((of_decide_eq_true same).symm.trans (of_decide_eq_true h))
          exact keys ▸ List.mem_map_of_mem hq
        simp [h, none]
      · simp [h]
    rw [List.flatMap_cons]
    refine ((ih apart).append_left _).trans ?_
    have split := List.filter_append_perm (·.isOf r) (vs.filter fun v => (r :: rest).any (v.isOf ·))
    rwa [own, others] at split

namespace Analyzer

variable {w : Workspace} {o : ToolOutput} {a b whole : Analyzer} {n : Nat}

/-- the linters that a linter turns into by some runs by turns, in each of which its tool leaves one output
behind -/
inductive Turned (w : Workspace) (o : ToolOutput) (a : Analyzer) : Nat → Analyzer → Prop
  | start : Turned w o a 0 a
  | execute {n : Nat} {b : Analyzer} {target : String} {options : Options} (before : Turned w o a n b)
      (turns : goesByTurns (b.optionsWith options) = true) (hears : b.Hears w target options o) :
      Turned w o a (n + 1) (b.execute w target options).2

/-- runs by turns take the schedule through as many cycles, and change nothing else but the runner -/
theorem Turned.exists_runner {find : Rule → List Violation} {runner : Runner} {s : LintState}
    (method : a.method = .linter runner s)
    (check : ∀ command r, lintCheck w command s.rules.length o r = .ok (find r))
    (turned : Turned w o a n b) :
    ∃ runner', b = { a with
      method := .linter runner' ⟨s.rules, (Schedule.turned find)^[n] s.schedule⟩ } := by
  induction turned with
  | start => exact ⟨runner, by rw [Function.iterate_zero, id, ← method]⟩
  | @execute n b target options before turns hears ih =>
    obtain ⟨runner', rfl⟩ := ih
    obtain ⟨command, runner'', ran, -⟩ := execute_by_turns rfl turns hears
    refine ⟨runner'', ran.trans ?_⟩
    rw [Function.iterate_succ_apply']
    unfold Schedule.turned
    rw [Schedule.runCycle_congr fun r _ => check command r]

/-- a run by turns settles, from the end of the first round on, with what is to be found of all rules -/
theorem Turned.settledRun {find : Rule → List Violation} {runner : Runner} {rules : List Rule}
    {engine target : String} {threshold interval : Nat} {options : Options}
    (method : a.method = .linter runner ⟨rules, .start engine threshold interval rules⟩)
    (turned : Turned w o a n b)
    (check : ∀ command r, lintCheck w command rules.length o r = .ok (find r))
    (positive : 0 < threshold) (positive' : 0 < interval) (some : rules ≠ [])
    (apart : (rules.map Rule.key).Nodup) (named : ∀ r ∈ rules, r.key ≠ .null)
    (enough : rules.length ≤ n + 1)
    (turns : goesByTurns (b.optionsWith options) = true) (hears : b.Hears w target options o) :
    b.settledRun w target options = .ok (rules.flatMap find) ∧ b.source = a.source := by
  obtain ⟨runner', rfl⟩ := turned.exists_runner method check
  obtain ⟨command, -, -, settles, -⟩ := execute_by_turns rfl turns hears
  obtain ⟨r, answer⟩ := Schedule.runCycle_iterate_turned positive positive' find some apart named enough
  refine ⟨settles (.some r, rules.flatMap find) ?_, rfl⟩
  rw [Schedule.runCycle_congr fun r _ => check command r]
  exact answer

/-- a finding whose rule has no blanks at its ends is of the same rules in its normal form -/
theorem isOf_normalForm {source : Source} {v : Violation} {r : Rule} (name : Output.isName v.rule = true) :
    (v.normalForm source).isOf r = v.isOf r := by
  unfold Violation.isOf Violation.normalForm
  rw [Output.trimmed_of_isName name]

/-- what is chosen of findings by their rules is chosen of their normal forms as well -/
theorem filter_normalForm {source : Source} {vs : List Violation} {p : Violation → Bool}
    (same : ∀ v ∈ vs, p (v.normalForm source) = p v) :
    (vs.map (Violation.normalForm source)).filter p =
      (vs.filter p).map (Violation.normalForm source) := by
  rw [List.filter_map]
  exact congrArg _ (List.filter_congr same)

/-- **The round robin converges.** A linter begins with at least two rules, all with a name and no two the
same, and in each run by turns its tool leaves the same proper output behind, in time and without having
failed.  Then every run from the end of the first round on succeeds, and finds what a run for everything,
which succeeds too, finds of these rules: first that of the first rule, then that of the second, and so on. -/
theorem round_robin_converges {settings : AnalyzerSettings} {runner : Runner}
    {zeroThreshold reducedInterval : Int} {rules : List Rule} {target place : String}
    {options more : Options} (fresh : linter settings runner zeroThreshold reducedInterval = .ok a)
    (listed : lintRules settings.options = .ok rules) (several : 2 ≤ rules.length)
    (apart : (rules.map Rule.key).Nodup) (named : ∀ r ∈ rules, r.key ≠ .null)
    (proper : Output.isProperOutput o.stdout = true) (fine : o.status < 2)
    (turned : Turned w o a n b) (enough : rules.length ≤ n + 1)
    (turns : goesByTurns (b.optionsWith options) = true) (hears : b.Hears w target options o)
    (lints : ∃ runner s, whole.method = .linter runner s) (source : whole.source = .eslint)
    (atOnce : goesByTurns (whole.optionsWith more) = false) (hears' : whole.Hears w place more o) :
    ∃ r full, (b.execute w target options).1 = .ok r ∧ r.success = true ∧
      (whole.execute w place more).1 = .ok full ∧ full.success = true ∧
      r.violations = (rules.flatMap fun rule => full.violations.filter (·.isOf rule)) ∧
      r.violations.Perm (full.violations.filter fun v => rules.any (v.isOf ·)) := by
  obtain ⟨found, answer, clean⟩ := exists_lintAnswer_of_isProperOutput w proper
  obtain ⟨rules', threshold, interval, listed', positive, positive', rfl⟩ := exists_of_linter_eq_ok fresh
  obtain rfl : rules = rules' := Except.ok.inj (listed.symm.trans listed')
  have check : ∀ command r, lintCheck w command rules.length o r = .ok (found.filter (·.isOf r)) := by
    intro command r
    have single : askedRules rules.length [r] = [r] := if_pos several
    refine (lintOutcome_eq_ok rfl).mpr ⟨fine, ?_⟩
    rw [single, answer]
    refine congrArg _ (List.filter_congr fun v _ => ?_)
    simp [Output.isAskedOf]
  have some : rules ≠ [] := List.length_pos_iff.mp (by omega)
  obtain ⟨settles, same⟩ := turned.settledRun rfl check positive positive' some apart named
    enough turns hears
  obtain ⟨r, told, success, -, violations⟩ := exists_report hears.named settles fun v hv => by
    obtain ⟨rule, -, hv⟩ := List.mem_flatMap.mp hv
    exact (clean v (List.mem_of_mem_filter hv)).2
  -- the run for everything
  obtain ⟨runner', s, method⟩ := lints
  obtain ⟨command, runner'', -, settles', -⟩ := execute_at_once method atOnce hears'
  have everything : lintOutcome w command [] { outcome := .ok o } = .ok found := by
    refine (lintOutcome_eq_ok rfl).mpr ⟨fine, ?_⟩
    rw [answer]
    exact congrArg _ (List.filter_eq_self.mpr fun _ _ => rfl)
  obtain ⟨full, told', success', -, violations'⟩ :=
    exists_report hears'.named (settles' found everything) fun v hv => (clean v hv).2
  have grouped : r.violations = rules.flatMap fun rule => full.violations.filter (·.isOf rule) := by
    rw [violations, violations', same, source, List.map_flatMap]
    refine List.flatMap_congr fun rule _ => (filter_normalForm fun v hv => ?_).symm
    exact isOf_normalForm (clean v hv).1
  refine ⟨r, full, told, success, told', success', grouped, ?_⟩
  rw [grouped]
  exact flatMap_filter_isOf_perm apart full.violations

/-- output about two rules that a linter checks and one that it does not -/
def mixedOutput : ToolOutput where
  stdout := "[\x7b\"filePath\":\"a.ts\",\"messages\":[\x7b\"ruleId\":\"no-console\",\"line\":1\x7d,"
    ++ "\x7b\"ruleId\":\"no-var\",\"line\":2\x7d,\x7b\"ruleId\":\"prefer-const\",\"line\":3\x7d]\x7d]"
  stderr := ""
  status := 1

/-- a linter of two rules with a tool that always writes that output -/
def mixedLinter : Analyzer := linterOn ["prefer-const", "no-console"] mixedOutput

/-- in the second run both rules are known, and the third is left out -/
theorem round_robin_converges_two :
    let second := (mixedLinter.execute bareProject "." []).2.execute bareProject "." []
    let whole := mixedLinter.execute bareProject "." [(.text "round_robin", .bool false)]
    second.1.toOption.map (fun r => r.violations.map (·.rule.key?)) =
        some [some (.text "prefer-const"), some (.text "no-console")] ∧
      whole.1.toOption.map (fun r => r.violations.map (·.rule.key?)) =
        some [some (.text "no-console"), some (.text "no-var"), some (.text "prefer-const")] ∧
      ∃ r full, second.1 = .ok r ∧ whole.1 = .ok full ∧ r.violations.Perm
        (full.violations.filter fun v => (["prefer-const", "no-console"].map Rule.ofName).any (v.isOf ·)) := by
  refine ⟨by decide +kernel, by decide +kernel, ?_⟩
  have fresh := linter_settingsFor ["prefer-const", "no-console"] mixedOutput
  have proper : Output.isProperOutput mixedOutput.stdout = true := by decide +kernel
  have hears : ∀ {b : Analyzer} {asked s options}, b.settings = mixedLinter.settings →
      b.method = .linter (.known [{ outcome := .ok mixedOutput }] asked) s →
      (lintCommandOf (mixedLinter.optionsWith options) (placeOf bareProject ".")).isOk = true →
      b.Hears bareProject "." options mixedOutput := by
    intro b asked s options settings method started
    refine hears_of_known method rfl (by decide) ?_
    unfold optionsWith
    rw [settings]
    exact started
  have turns : ∀ {b : Analyzer}, b.settings = mixedLinter.settings →
      goesByTurns (b.optionsWith []) = true := by
    intro b settings
    unfold optionsWith
    rw [settings]
    decide +kernel
  have atOnce : goesByTurns (mixedLinter.optionsWith [(.text "round_robin", .bool false)]) = false := by
    decide +kernel
  obtain ⟨asked, s, method⟩ := exists_execute_known (a := mixedLinter) (w := bareProject) rfl
  obtain ⟨other, same⟩ := execute_snd bareProject mixedLinter "." []
  have settings : (mixedLinter.execute bareProject "." []).2.settings = mixedLinter.settings := by rw [same]
  have once : Turned bareProject mixedOutput mixedLinter 1 (mixedLinter.execute bareProject "." []).2 :=
    .execute .start (turns rfl) (hears rfl rfl (by decide +kernel))
  obtain ⟨r, full, told, -, told', -, -, same⟩ := round_robin_converges fresh
    (lintRules_settingsFor _) (by decide) (by decide)
    (by decide) proper (by decide) once (by decide) (turns settings)
    (hears settings method (by decide +kernel)) ⟨_, _, rfl⟩ rfl atOnce (hears rfl rfl (by decide +kernel))
  exact ⟨r, full, told, told', same⟩

end Analyzer

end LintLedger
