import LintLedger.Proofs.Engine.CheckRows
import LintLedger.Proofs.Engine.Repeated
import LintLedger.Proofs.Engine.Restart
import Mathlib

/-!
# What the row of a linter's check counts

The row that a cycle leaves behind for a linter that checks its rules by turns bears the rule of the cycle.
But it counts all that is known after the check: what the check found, and what the last checks of all other
rules found (`counts_known`).  So it counts the findings of its rule exactly if those found nothing, and goes
on counting the findings of other rules for a rule that finds nothing itself (`counted_for_another`).
-/

namespace LintLedger.Engine

open Outcome Store

variable {e : Engine} {rules : List Rule} {checks : List (Rule × List Violation)} {target : Option String}
  {clock : Clock} {s : Store} {c : Cycle}

/-- a cycle that ends well leaves the engine as its analysis does -/
theorem cycle_snd_of_eq_ok (ended : (e.cycle clock target s).1 = .ok c) :
    (e.cycle clock target s).2.1 = (e.analyze target).2 := by
  obtain ⟨k, later, keeping, analyzed, -⟩ := exists_yields_of_cycle_eq_ok ended
  rw [cycle_of_analyze_eq_ok keeping analyzed]

/-! ### Runs of cycles -/

/-- what becomes of an engine with a linter that checks some rules by turns and has found nothing yet, in
cycles that end well; with what its checks of single rules found, the latest of them first -/
inductive InTurns (rules : List Rule) : List (Rule × List Violation) → Engine → Prop
  | begins {e : Engine} {schedule : Schedule} (goes : e.GoesBy schedule) (sound : schedule.IsSound)
      (own : schedule.rules = rules) (fresh : schedule.known = []) : InTurns rules [] e
  | cycle {checks : List (Rule × List Violation)} {e : Engine} {clock : Clock} {target : Option String}
      {s : Store} {c : Cycle} (before : InTurns rules checks e)
      (ended : (e.cycle clock target s).1 = .ok c) :
      InTurns rules ((e.answer? target).toList ++ checks) (e.cycle clock target s).2.1

/-- in such a run the engine goes by a schedule that recalls the checks -/
theorem InTurns.exists_schedule (h : InTurns rules checks e) :
    ∃ schedule, e.GoesBy schedule ∧ schedule.IsSound ∧ schedule.rules = rules ∧ schedule.Recalls checks := by
  induction h with
  | @begins e schedule goes sound own fresh =>
    exact ⟨schedule, goes, sound, own, Schedule.recalls_nil fresh⟩
  | @cycle checks e clock target s c _ ended ih =>
    obtain ⟨schedule, goes, sound, own, recalls⟩ := ih
    obtain ⟨k, -, -, analyzed, -⟩ := exists_yields_of_cycle_eq_ok ended
    obtain ⟨check, answer, next, -⟩ := goes.exists_check analyzed
    rw [cycle_snd_of_eq_ok ended, answer]
    exact ⟨_, next, sound.runCycle check, (Schedule.isAlike_runCycle check).rules.trans own,
      recalls.runCycle check⟩

/-- a run of the program begins with such an engine, whatever it takes up from its store -/
theorem Begins.inTurns {scheduler : SchedulerSettings} {names : List String}
    (begins : Begins scheduler names s e) (distinct : names.Nodup) : InTurns (names.map .ofName) [] e := by
  obtain ⟨follows, goes⟩ := begins.goesBy
  refine .begins goes follows.sound (follows.rules distinct) ?_
  unfold scheduleIn
  rw [Schedule.known_restore]
  exact Schedule.known_start

/-! ### The row of a check -/

/-- **What the row of a linter's check counts.** After any number of cycles that ended well of an engine whose
linter checks its rules by turns, one more cycle that ends well adds one row for the linter.  If the row tells
of success, it bears the rule that the cycle has checked, and counts what the check found together with what
the last checks of all other rules found; so it counts what the check found exactly if those found nothing.
A row that tells of failure, and one of a cycle without a check, counts nothing. -/
theorem counts_known (h : InTurns rules checks e) (ended : (e.cycle clock target s).1 = .ok c) :
    ∃ rows new row, s.checks = some rows ∧ (e.cycle clock target s).2.2.checks = some (rows ++ new) ∧
      new.filter (fun row => row.engine = Analyzer.linterName) = [row] ∧
      (row.status = .completed ∨ row.status = .failed ∧ row.found = 0) ∧
      (e.answer? target = none → row.found = 0) ∧
      ∀ r found, e.answer? target = some (r, found) → row.status = .completed →
        textColumn .startCheck (if r.value.truthy then r.value else everyRule) = .ok row.rule ∧
        row.found = (found.length +
          ((rules.filter fun q => q.key ≠ r.key).flatMap (Schedule.lastFound checks)).length : Nat) ∧
        (row.found = found.length ↔ ∀ q ∈ rules, q.key ≠ r.key → Schedule.lastFound checks q = []) := by
  obtain ⟨schedule, goes, sound, rfl, recalls⟩ := h.exists_schedule
  obtain ⟨k, -, -, analyzed, -⟩ := exists_yields_of_cycle_eq_ok ended
  obtain ⟨check, answer, -, report, only, told⟩ := goes.exists_check analyzed
  obtain ⟨rows, own, new, known, grown, engine, -, -, each⟩ := checks_of_cycle ended
  -- of the new rows that of the linter's report is the only one for the linter
  have linters := List.rel_filter
    (p := fun r : Report => r.engine = Analyzer.linterName)
    (q := fun row : CheckRow => row.engine = Analyzer.linterName)
    (fun r row tells => by simp [tells.engine]) each
  rw [only] at linters
  obtain ⟨row, rest, tells, done, single⟩ := List.forall₂_cons_left_iff.mp linters
  cases done
  rw [answer]
  refine ⟨rows, own :: new, row, known, grown, ?_, ?_⟩
  · rw [List.filter_cons_of_neg (by rw [engine]; decide), single]
  cases success : report.success with
  | false =>
    obtain ⟨failed, nothing⟩ := tells.failed success
    refine ⟨.inr ⟨failed, nothing⟩, fun _ => nothing, fun r found _ completed => ?_⟩
    rw [failed] at completed
    cases completed
  | true =>
    -- what is counted is the answer of the cycle, which is all that is known after the check
    obtain ⟨completed, count⟩ := tells.completed success
    obtain ⟨p, cycled, all, last⟩ := told success
    rw [all] at count
    refine ⟨.inl completed, fun idle => ?_, fun r found checked _ => ?_⟩
    · rw [count, (Schedule.runCycle_of_answer?_eq_none idle).2 p cycled]
      rfl
    · have whole := recalls.length_known sound checked cycled
      obtain ⟨t, -, ran⟩ := Schedule.runCycle_of_answer?_eq_some checked
      refine ⟨?_, by rw [count, whole], ?_⟩
      · rw [← tells.rule]
        unfold ruleOf
        rw [last, ran]
        rfl
      · rw [count, whole, Nat.cast_inj, Nat.add_eq_left, List.length_eq_zero_iff, List.flatMap_eq_nil_iff]
        simp only [List.mem_filter, decide_eq_true_eq, and_imp]

/-! ### A rule that finds nothing -/

/-- an engine with a linter of two rules, of which its tool always finds the first -/
def firstFound : Engine := lintingAlways ["no-var", "prefer-const"] secondOutput

theorem inTurns_firstFound : InTurns [.ofName "no-var", .ofName "prefer-const"] [] firstFound := by
  have turns : (Analyzer.linterOn ["no-var", "prefer-const"] secondOutput).TurnsBy
      (.start Analyzer.linterName 5 5 [.ofName "no-var", .ofName "prefer-const"]) :=
    ⟨rfl, by decide +kernel, _, _, rfl⟩
  have one : firstFound.analyzers = [Analyzer.linterOn ["no-var", "prefer-const"] secondOutput] := rfl
  exact .begins ⟨[], _, [], one, turns, List.forall_mem_nil _, List.forall_mem_nil _⟩
    (.start _ _ (by decide) (by decide)) (Schedule.rules_start (by decide)) Schedule.known_start

/-- what its first cycle over a new store comes to -/
def firstCycle : Except Failure Cycle × Engine × Store := firstFound.cycle (.still ⟨1⟩) none .empty

/-- and its second -/
def secondCycle : Except Failure Cycle × Engine × Store :=
  firstCycle.2.1.cycle (.still ⟨1⟩) none firstCycle.2.2

theorem inTurns_firstCycle : InTurns [.ofName "no-var", .ofName "prefer-const"]
    ((firstFound.answer? none).toList ++ []) firstCycle.2.1 := by
  have ended : firstCycle.1.isOk = true := by decide +kernel
  obtain ⟨c, ended⟩ := exists_eq_ok.mpr ended
  exact .cycle inTurns_firstFound ended

/-- the second cycle checks the rule that finds nothing, and counts what was found of the other -/
theorem counts_known_second : ∃ rows new row, firstCycle.2.2.checks = some rows ∧
    secondCycle.2.2.checks = some (rows ++ new) ∧
    new.filter (fun row => row.engine = Analyzer.linterName) = [row] ∧
    row.rule = "prefer-const" ∧ row.found = (0 + 1 : Nat) := by
  have shown : (secondCycle.1.isOk, secondCycle.2.2.checks.map fun rows => rows.map (·.status)) =
      (true, some (List.replicate 4 .completed)) := by
    decide +kernel
  have checked : (firstCycle.2.1.answer? none).map (fun p => (p.2.length,
      (([.ofName "no-var", .ofName "prefer-const"].filter fun q => q.key ≠ p.1.key).flatMap
        (Schedule.lastFound ((firstFound.answer? none).toList ++ []))).length,
      (textColumn .startCheck (if p.1.value.truthy then p.1.value else everyRule)).toOption)) =
      some (0, 1, some "prefer-const") := by
    decide +kernel
  obtain ⟨ended, completed⟩ := Prod.mk.inj shown
  obtain ⟨c, ended⟩ := exists_eq_ok.mpr ended
  obtain ⟨rows, new, row, known, grown, only, -, -, counts⟩ := counts_known inTurns_firstCycle ended
  have grown : secondCycle.2.2.checks = some (rows ++ new) := grown
  have completed : row.status = .completed := by
    have mem : row ∈ new := List.mem_of_mem_filter (only ▸ List.mem_singleton_self row)
    rw [grown] at completed
    have all : (rows ++ new).map (·.status) = List.replicate 4 .completed := Option.some.inj completed
    exact List.eq_of_mem_replicate (all ▸ List.mem_map_of_mem (List.mem_append_right rows mem))
  obtain ⟨⟨r, found⟩, answer, told⟩ := Option.map_eq_some_iff.mp checked
  simp only [Prod.mk.injEq] at told
  obtain ⟨nothing, others, label⟩ := told
  obtain ⟨rule, count, -⟩ := counts r found answer completed
  rw [nothing, others] at count
  have rule := rule.symm.trans (eq_ok_of_toOption label)
  exact ⟨rows, new, row, known, grown, only, Except.ok.inj rule, count⟩

/-- a check that found nothing, of which the row says that it found something, while the schedule that is kept
counts it among those that found nothing -/
theorem counted_for_another :
    InTurns [.ofName "no-var", .ofName "prefer-const"] ((firstFound.answer? none).toList ++ [])
      firstCycle.2.1 ∧
    (∃ c, secondCycle.1 = .ok c) ∧
    (firstCycle.2.1.answer? none).map (fun p => (p.1.key, p.2.length)) = some (.text "prefer-const", 0) ∧
    firstCycle.2.2.checks.map List.length = some 2 ∧
    (secondCycle.2.2.checks.map fun rows => (rows.drop 2).map fun row =>
      (row.engine, row.rule, row.status, row.found)) =
      some [("orchestrator", "all", .completed, 1), ("eslint", "prefer-const", .completed, 1)] ∧
    (secondCycle.2.2.schedules.map fun rows => rows.map fun row => (row.rule, row.zeroStreak)) =
      some [("no-var", 0), ("prefer-const", 1)] :=
  ⟨inTurns_firstCycle, exists_eq_ok.mpr (by decide +kernel), by decide +kernel⟩

end LintLedger.Engine
