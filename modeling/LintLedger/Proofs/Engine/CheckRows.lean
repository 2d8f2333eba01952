import LintLedger.Proofs.Engine.Closing
import Mathlib

/-!
# The checks that a cycle leaves behind

A cycle that ends well adds one row to the table of checks for itself and one for each report of its
analysis, in their order, and leaves all other rows as they were (`checks_of_cycle`).  The row of a report
bears the rule that the report was about, and counts all the findings of the report if it is one of success
(`CheckRow.Tells`).
-/

namespace LintLedger

open Outcome

/-- whether a row is what is written down of a report -/
structure CheckRow.Tells (r : Report) (row : CheckRow) : Prop where
  rule : Store.textColumn .startCheck (Engine.ruleOf r) = .ok row.rule
  engine : row.engine = r.engine
  completed : r.success = true → row.status = .completed ∧ row.found = r.violations.length
  failed : r.success = false → row.status = .failed ∧ row.found = 0

/-! ### One check of many -/

namespace Store

variable {s t : Store} {rows more : List CheckRow} {row : CheckRow}

/-- a change of the check of a number changes the one row that has it -/
theorem changeCheck_eq_ok_of_alone {action : StoreAction} {change : CheckRow → Except Failure CheckRow}
    (known : s.checks = some (rows ++ row :: more)) (before : ∀ r ∈ rows, r.id ≠ row.id)
    (after : ∀ r ∈ more, r.id ≠ row.id) (h : changeCheck action row.id change s = .ok t) :
    ∃ row', change row = .ok row' ∧ t = { s with checks := some (rows ++ row' :: more) } := by
  obtain ⟨all, needed, h⟩ := bind_eq_ok.mp h
  obtain rfl := Option.some.inj ((need_eq_ok.mp needed).symm.trans known)
  obtain ⟨number, whole, h⟩ := bind_eq_ok.mp h
  obtain ⟨changed, each, h⟩ := bind_eq_ok.mp h
  cases h
  obtain rfl : number = row.id := by
    unfold wholeColumn at whole
    split at whole <;> cases whole
    rfl
  have kept : ∀ others : List CheckRow, (∀ r ∈ others, r.id ≠ row.id) →
      others.mapM (fun r => if r.id = row.id then change r else .ok r) = .ok others := by
    intro others apart
    rw [mapM_congr fun r hr => if_neg (apart r hr), mapM_ok]
  rw [List.mapM_append, kept rows before] at each
  obtain ⟨left, hleft, each⟩ := bind_eq_ok.mp each
  cases hleft
  obtain ⟨right, hright, each⟩ := bind_eq_ok.mp each
  cases each
  rw [List.mapM_cons, kept more after, if_pos rfl] at hright
  obtain ⟨row', one, hright⟩ := bind_eq_ok.mp hright
  cases hright
  exact ⟨row', one, rfl⟩

end Store

/-! ### The rows of a cycle -/

namespace Engine

open Store

variable {e : Engine} {s t : Store} {clock : Clock} {y : Store × Clock} {rows : List CheckRow} {r : Report}
  {k : StoreSettings} {a : Analysis} {c : Cycle} {target : Option String}

theorem ne_of_mem_of_nextId {number : Int} (new : nextId CheckRow.id rows ≤ number) :
    ∀ r ∈ rows, r.id ≠ number := by
  intro r hr same
  have below := lt_nextId CheckRow.id hr
  omega

/-- a check that begins has a row of its own behind all others -/
theorem startCheck_eq_ok_row {now : Instant} {rule engine : Value} {check : Int}
    (known : s.checks = some rows) (h : startCheck now rule engine s = .ok (check, t)) :
    ∃ row, t = { s with checks := some (rows ++ [row]) } ∧ check = row.id ∧
      row.id = nextId CheckRow.id rows ∧ textColumn .startCheck rule = .ok row.rule ∧
      textColumn .startCheck engine = .ok row.engine ∧ row.found = 0 := by
  obtain ⟨rows', needed, h⟩ := bind_eq_ok.mp h
  obtain rfl := Option.some.inj ((need_eq_ok.mp needed).symm.trans known)
  obtain ⟨rule, written, h⟩ := bind_eq_ok.mp h
  obtain ⟨engine, named, h⟩ := bind_eq_ok.mp h
  cases h
  exact ⟨_, rfl, rfl, rfl, written, named, rfl⟩

/-- the run of an analyzer adds the row that tells of its report -/
theorem checks_of_recordRun (known : s.checks = some rows) (h : Yields (recordRun r) (s, clock) () y) :
    ∃ row, y.1.checks = some (rows ++ [row]) ∧ row.id = nextId CheckRow.id rows ∧ row.Tells r := by
  unfold recordRun at h
  obtain ⟨check, ⟨begun, later⟩, started, h⟩ := yields_bind.mp h
  obtain ⟨begins, rfl⟩ := yields_timed.mp started
  obtain ⟨row, rfl, rfl, number, rule, named, none⟩ := startCheck_eq_ok_row known (yields_commit.mp begins)
  obtain ⟨milliseconds, mid, taken, h⟩ := yields_bind.mp h
  obtain ⟨-, rfl⟩ := yields_given.mp taken
  obtain ⟨u, clock'⟩ := y
  obtain ⟨h, -⟩ := yields_timed.mp h
  have engine : row.engine = r.engine := (Except.ok.inj named).symm
  have alone : ∀ r ∈ rows, r.id ≠ row.id := number ▸ ne_of_mem_of_nextId le_rfl
  cases success : r.success with
  | true =>
    rw [success, if_pos rfl] at h
    obtain ⟨row', made, rfl⟩ := changeCheck_eq_ok_of_alone rfl alone (List.forall_mem_nil _)
      (yields_commitChange.mp h)
    obtain ⟨found, counted, made⟩ := bind_eq_ok.mp made
    obtain ⟨time, -, made⟩ := bind_eq_ok.mp made
    cases made
    exact ⟨_, rfl, number, rule, engine, fun _ => ⟨rfl, countColumn_int counted⟩, fun fails => by
      rw [success] at fails
      cases fails⟩
  | false =>
    rw [success, if_neg Bool.false_ne_true] at h
    obtain ⟨row', made, rfl⟩ := changeCheck_eq_ok_of_alone rfl alone (List.forall_mem_nil _)
      (yields_commitChange.mp h)
    obtain ⟨time, -, made⟩ := bind_eq_ok.mp made
    obtain ⟨error, -, made⟩ := bind_eq_ok.mp made
    cases made
    exact ⟨_, rfl, number, rule, engine, fun succeeds => (by
      rw [success] at succeeds
      cases succeeds), fun _ => ⟨rfl, none⟩⟩

/-- the runs of analyzers add a row for each of their reports, with numbers that were not taken -/
theorem checks_of_recordRuns {reports : List Report} (known : s.checks = some rows)
    (h : Yields (reports.forM recordRun) (s, clock) () y) :
    ∃ new, y.1.checks = some (rows ++ new) ∧ List.Forall₂ CheckRow.Tells reports new ∧
      ∀ row ∈ new, nextId CheckRow.id rows ≤ row.id := by
  induction reports generalizing s clock rows with
  | nil =>
    obtain ⟨-, rfl⟩ := yields_pure.mp h
    exact ⟨[], by simpa using known, .nil, List.forall_mem_nil _⟩
  | cons r rest ih =>
    obtain ⟨_, ⟨mid, later⟩, first, h⟩ := yields_bind.mp h
    obtain ⟨row, grown, number, tells⟩ := checks_of_recordRun known first
    obtain ⟨new, all, each, above⟩ := ih grown h
    have higher := nextId_snoc number
    refine ⟨row :: new, by simpa using all, .cons tells each, fun other mem => ?_⟩
    rcases List.mem_cons.mp mem with rfl | later
    · omega
    · have := above other later
      omega

/-- recording an analysis adds the rows of its reports -/
theorem checks_of_recordAnalysis {check : Int} {d : Delta × StoreResult} (known : s.checks = some rows)
    (h : Yields (recordAnalysis k check a) (s, clock) d y) :
    ∃ new, y.1.checks = some (rows ++ new) ∧ List.Forall₂ CheckRow.Tells a.reports new ∧
      ∀ row ∈ new, nextId CheckRow.id rows ≤ row.id := by
  obtain ⟨current, mid, screened, h⟩ := yields_bind.mp h
  obtain ⟨-, rfl⟩ := yields_given.mp screened
  obtain ⟨delta, ⟨recorded, _⟩, compared, h⟩ := yields_bind.mp h
  obtain ⟨compares, rfl⟩ := yields_timed.mp compared
  obtain ⟨result, ⟨stored, later⟩, written, h⟩ := yields_bind.mp h
  obtain ⟨_, ⟨checked, _⟩, runs, h⟩ := yields_bind.mp h
  obtain ⟨_, ⟨measured, _⟩, metric, h⟩ := yields_bind.mp h
  obtain ⟨-, rfl⟩ := yields_pure.mp h
  obtain ⟨measures, rfl⟩ := yields_timed.mp metric
  -- neither the change nor the violations nor the time are written among the checks
  have known : recorded.checks = some rows := by
    obtain ⟨-, -, -, ⟨-, rfl⟩ | ⟨history, number, -, -, rfl⟩⟩ :=
      recordDeltas_eq_ok (yields_commit.mp compares)
    · exact known
    · exact known
  have known : stored.checks = some rows := by
    obtain ⟨violations, left⟩ := exists_storeViolations_snd k clock.next a.violations recorded
    rw [yields_storing.mp written] at left
    obtain rfl : stored = { recorded with violations := violations } := left
    exact known
  obtain ⟨new, all, each, above⟩ := checks_of_recordRuns known runs
  obtain ⟨metrics, -, rfl⟩ := recordMetric_eq_ok (yields_commitChange.mp measures)
  exact ⟨new, all, each, above⟩

/-- keeping an analysis adds a row of its own and the rows of its reports -/
theorem checks_of_keep (known : s.checks = some rows) (h : Yields (e.keep k a) (s, clock) c y) :
    ∃ own new, y.1.checks = some (rows ++ own :: new) ∧ own.engine = "orchestrator" ∧
      own.status = .completed ∧ own.found = (a.violations.length : Int) ∧
      List.Forall₂ CheckRow.Tells a.reports new := by
  obtain ⟨-, ⟨begun, _⟩, ⟨mid, _⟩, ⟨completed, _⟩, started, recorded, ended, schedules⟩ := yields_keep h
  obtain ⟨begins, rfl⟩ := yields_timed.mp started
  obtain ⟨row, rfl, same, number, -, named, -⟩ := startCheck_eq_ok_row known (yields_commit.mp begins)
  rw [same] at recorded ended
  obtain ⟨new, grown, each, above⟩ := checks_of_recordAnalysis rfl recorded
  have alone : ∀ r ∈ rows, r.id ≠ row.id := number ▸ ne_of_mem_of_nextId le_rfl
  have higher := nextId_snoc number
  obtain ⟨ends, rfl⟩ := yields_timed.mp ended
  have grown : mid.checks = some (rows ++ row :: new) := by simpa using grown
  obtain ⟨own, made, rfl⟩ := changeCheck_eq_ok_of_alone grown alone
    (fun r hr => by have := above r hr; omega) (yields_commitChange.mp ends)
  obtain ⟨found, counted, made⟩ := bind_eq_ok.mp made
  obtain ⟨time, -, made⟩ := bind_eq_ok.mp made
  cases made
  obtain ⟨saves, -⟩ := yields_untimed.mp schedules
  have kept : ∀ all, Preserves (fun t : Store => t.checks = all) e.saveSchedules := fun all =>
    preserves_saveSchedules fun _ _ same => same
  exact ⟨_, new, (kept _).yields saves rfl, (Except.ok.inj named).symm, rfl, countColumn_int counted, each⟩

/-- What a cycle that ended well leaves among the checks: behind those that were there, one row for the
cycle, which counts its batch, and one for each report of its analysis. -/
theorem checks_of_cycle (h : (e.cycle clock target s).1 = .ok c) :
    ∃ rows own new, s.checks = some rows ∧
      (e.cycle clock target s).2.2.checks = some (rows ++ own :: new) ∧ own.engine = "orchestrator" ∧
      own.status = .completed ∧ own.found = (c.analysis.violations.length : Int) ∧
      List.Forall₂ CheckRow.Tells c.analysis.reports new := by
  obtain ⟨k, later, -, -, kept⟩ := exists_yields_of_cycle_eq_ok h
  obtain ⟨-, begun, -, -, -, started, -⟩ := keep_eq_ok kept
  obtain ⟨rows, -, known, -⟩ := startCheck_eq_ok started
  obtain ⟨own, new, grown, rest⟩ := checks_of_keep known kept
  exact ⟨rows, own, new, known, grown, rest⟩

end Engine

end LintLedger
