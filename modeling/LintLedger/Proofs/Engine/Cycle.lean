import LintLedger.Proofs.Engine.Work
import LintLedger.Proofs.Store.Accepted
import LintLedger.Proofs.Store.Changes
import Mathlib

/-!
# What a cycle that ended well has done

A cycle goes through its batch twice: once for the fingerprints that are compared with the active ones
and once for the violations that are stored.  The first time it takes up the violations without
problems (`currentFingerprints_eq_ok`), as it does the second time.  `cycle_eq_ok` lists what a cycle
that ended well has done to the store: a check begun, the change recorded, the violations stored, and
then nothing that touches violations or history.
-/

namespace LintLedger

open Outcome

variable {vs : List Violation}

theorem Engine.currentFingerprints_eq_ok {prints : List String}
    (h : Engine.currentFingerprints vs = .ok prints) : prints = Violation.acceptedPrints vs := by
  obtain ⟨each, made, h⟩ := bind_eq_ok.mp h
  obtain rfl : each.filterMap id = prints := by simpa [pure, Except.pure] using h
  have same : each.map id = vs.map Violation.acceptedPrint? := by
    refine map_of_mapM (fun v print one => ?_) made
    obtain ⟨problems, hproblems, one⟩ := bind_eq_ok.mp one
    unfold Violation.acceptedPrint? Violation.isAccepted
    rw [hproblems]
    dsimp only
    split at one
    · rename_i none
      obtain ⟨f, hf, rfl⟩ := map_eq_ok.mp one
      rw [if_pos none, hf]
      rfl
    · rename_i some
      cases one
      rw [if_neg some]
      rfl
  rw [List.map_id] at same
  rw [same, Violation.acceptedPrints, List.filterMap_map]
  rfl

/-! ### What comes after the violations -/

namespace Store

/-- the numbers of checks -/
def checkIds (s : Store) : List Int := (s.checks.getD []).map CheckRow.id

/-- whether a store has the violations and the history of another, and knows every check that the
other knows -/
structure Keeps (s t : Store) : Prop where
  violations : t.violations = s.violations
  history : t.history = s.history
  checks : ∀ id ∈ s.checkIds, id ∈ t.checkIds

theorem Keeps.refl (s : Store) : s.Keeps s := ⟨rfl, rfl, fun _ h => h⟩

theorem Keeps.trans {s t u : Store} (h : s.Keeps t) (g : t.Keeps u) : s.Keeps u :=
  ⟨g.violations.trans h.violations, g.history.trans h.history, fun id hid => g.checks id (h.checks id hid)⟩

variable {now : Instant} {s t : Store}

theorem keeps_of_startCheck {rule engine : Value} {id : Int}
    (h : startCheck now rule engine s = .ok (id, t)) : s.Keeps t := by
  obtain ⟨rows, row, known, -, -, rfl⟩ := startCheck_eq_ok h
  refine ⟨rfl, rfl, fun id hid => ?_⟩
  unfold checkIds at hid ⊢
  rw [known] at hid
  simp only [Option.getD_some, List.map_append, List.mem_append] at hid ⊢
  exact .inl hid

/-- changing checks without their numbers keeps every check known -/
theorem keeps_of_checks {rows rows' : List CheckRow} (known : s.checks = some rows)
    (same : rows'.map CheckRow.id = rows.map CheckRow.id) : s.Keeps { s with checks := some rows' } := by
  refine ⟨rfl, rfl, fun id hid => ?_⟩
  unfold checkIds at hid ⊢
  rw [known] at hid
  simpa [same] using hid

end Store

namespace Engine

open Store

variable {now : Instant} {s t : Store}

theorem completeCheck_preserves {check : Int} {found milliseconds : Value} :
    Preserves s.Keeps (commitChange (completeCheck now check found milliseconds)) := by
  refine .commitChange fun mid mid' kept done => kept.trans ?_
  obtain ⟨rows, rows', known, same, rfl⟩ := completeCheck_eq_ok done
  exact keeps_of_checks known same

theorem failCheck_preserves {check : Int} {error milliseconds : Value} :
    Preserves s.Keeps (commitChange (failCheck now check error milliseconds)) := by
  refine .commitChange fun mid mid' kept done => kept.trans ?_
  obtain ⟨rows, rows', known, same, rfl⟩ := failCheck_eq_ok done
  exact keeps_of_checks known same

theorem recordMetric_preserves {k : StoreSettings} {kind value unit context : Value} :
    Preserves s.Keeps (commitChange (recordMetric k now kind value unit context)) := by
  refine .commitChange fun mid mid' kept done => kept.trans ?_
  obtain ⟨rows, -, rfl⟩ := recordMetric_eq_ok done
  exact ⟨rfl, rfl, fun _ hid => hid⟩

theorem recordRun_preserves (r : Report) : Preserves (ofStore s.Keeps) (recordRun r) := by
  unfold recordRun
  refine .bind (.timed fun now => ?_) fun check => ?_
  · exact .commit fun mid a mid' kept done => kept.trans (keeps_of_startCheck done)
  refine .bind (.given _) fun milliseconds => .timed fun now => ?_
  split
  · exact completeCheck_preserves
  · exact failCheck_preserves

theorem markFailed_preserves {check : Int} (f : Failure) :
    Preserves (ofStore s.Keeps) (markFailed check f) := by
  unfold markFailed
  refine .tryCatch (.timed fun now => failCheck_preserves) fun g => ?_
  split
  · exact .pure _
  · exact .throw g

/-- saving the schedules preserves what does not depend on them -/
theorem preserves_saveSchedules {e : Engine} {P : Store → Prop}
    (other : ∀ t rows, P t → P { t with schedules := rows }) : Preserves P e.saveSchedules := by
  unfold saveSchedules
  refine .forM fun a _ => ?_
  split
  · refine .commitChange fun mid mid' kept done => ?_
    obtain ⟨rows, -, rfl⟩ := saveSchedules_eq_ok done
    exact other mid _ kept
  · exact .pure _

theorem saveSchedules_preserves {e : Engine} : Preserves s.Keeps e.saveSchedules :=
  preserves_saveSchedules fun _ _ kept => kept.trans ⟨rfl, rfl, fun _ hid => hid⟩

/-! ### The whole cycle -/

variable {k : StoreSettings} {e : Engine} {a : Analysis} {clock : Clock} {target : Option String} {c : Cycle}

/-- what recording the outcome of an analysis has done -/
theorem recordAnalysis_eq_ok {check : Int} {a : Analysis} {d : Delta} {r : StoreResult}
    {y : Store × Clock} (h : Yields (recordAnalysis k check a) (s, clock) (d, r) y) :
    ∃ recorded stored later,
      recordDeltas (clock 0) (.int check) (Violation.acceptedPrints a.violations) s
        = .ok (d, recorded) ∧
      storeViolations k clock.next a.violations recorded = (.ok r, stored, later) ∧
      stored.Keeps y.1 := by
  obtain ⟨current, mid, screened, h⟩ := yields_bind.mp h
  obtain ⟨hcurrent, rfl⟩ := yields_given.mp screened
  obtain rfl := currentFingerprints_eq_ok (orFail_eq_ok.mp hcurrent)
  obtain ⟨delta, ⟨recorded, _⟩, compared, h⟩ := yields_bind.mp h
  obtain ⟨hdelta, rfl⟩ := yields_timed.mp compared
  obtain ⟨result, ⟨stored, later⟩, written, h⟩ := yields_bind.mp h
  obtain ⟨_, checked, runs, h⟩ := yields_bind.mp h
  obtain ⟨_, measured, metric, h⟩ := yields_bind.mp h
  obtain ⟨same, rfl⟩ := yields_pure.mp h
  cases same
  have kept : ofStore stored.Keeps checked :=
    (Preserves.forM fun r _ => recordRun_preserves r).yields runs (Keeps.refl stored)
  have kept : ofStore stored.Keeps measured :=
    (Preserves.timed fun _ => recordMetric_preserves).yields metric kept
  exact ⟨recorded, stored, later, yields_commit.mp hdelta, yields_storing.mp written, kept⟩

/-- an analysis that has been kept: the check was begun, the analysis recorded, the check ended and the
schedules saved -/
theorem yields_keep {x y : Store × Clock} (h : Yields (e.keep k a) x c y) :
    c.analysis = a ∧ ∃ begun recorded completed,
      Yields (timed fun now => commit (startCheck now everyRule conductor)) x c.check begun ∧
      Yields (recordAnalysis k c.check a) begun (c.delta, c.stored) recorded ∧
      Yields (timed fun now => commitChange
        (completeCheck now c.check (.int a.violations.length) (.int 0))) recorded () completed ∧
      Yields (untimed e.saveSchedules) completed () y := by
  obtain ⟨check, begun, started, h⟩ := yields_bind.mp h
  obtain ⟨⟨delta, stored⟩, recorded, work, h⟩ := yields_bind.mp h
  obtain ⟨_, completed, ended, h⟩ := yields_bind.mp h
  obtain ⟨_, saved, schedules, h⟩ := yields_bind.mp h
  obtain ⟨rfl, rfl⟩ := yields_pure.mp h
  -- what handles a failure of the recording fails itself
  have done : Yields (recordAnalysis k check a) begun (delta, stored) recorded := by
    refine (yields_tryCatch fun f x b y handled => ?_).mp work
    split at handled
    · obtain ⟨_, _, _, failed⟩ := yields_bind.mp handled
      exact not_yields_throw failed
    · exact not_yields_throw handled
  exact ⟨rfl, begun, recorded, completed, started, done, ended, schedules⟩

theorem keep_eq_ok {y : Store × Clock} (h : Yields (e.keep k a) (s, clock) c y) :
    c.analysis = a ∧ ∃ begun recorded stored later,
      startCheck (clock 0) everyRule conductor s = .ok (c.check, begun) ∧
      recordDeltas (clock 1) (.int c.check) (Violation.acceptedPrints a.violations) begun
        = .ok (c.delta, recorded) ∧
      storeViolations k clock.next.next a.violations recorded = (.ok c.stored, stored, later) ∧
      stored.Keeps y.1 := by
  obtain ⟨rfl, ⟨begun, _⟩, _, completed, started, done, ended, schedules⟩ := yields_keep h
  obtain ⟨begins, rfl⟩ := yields_timed.mp started
  obtain ⟨recorded, stored, later, compared, written, kept⟩ := recordAnalysis_eq_ok done
  have kept : ofStore stored.Keeps completed :=
    (Preserves.timed fun _ => completeCheck_preserves).yields ended kept
  have kept : ofStore stored.Keeps y := saveSchedules_preserves.untimed.yields schedules kept
  exact ⟨rfl, begun, recorded, stored, later, yields_commit.mp begins, compared, written, kept⟩

/-- a cycle whose analysis has ended well is that analysis kept -/
theorem cycle_of_analyze_eq_ok (keeping : e.keeping = some k)
    (analyzed : (e.analyze target).1 = .ok a) :
    e.cycle clock target s =
      ((((e.analyze target).2.keep k a).run.run (s, clock)).1, (e.analyze target).2,
        (((e.analyze target).2.keep k a).run.run (s, clock)).2.1) := by
  have whole : e.analyze target = (.ok a, (e.analyze target).2) := Prod.ext analyzed rfl
  unfold cycle
  rw [keeping]
  dsimp only
  rw [whole]
  rfl

/-- a cycle that ended well is an analysis that ended well and was kept -/
theorem exists_yields_of_cycle_eq_ok (h : (e.cycle clock target s).1 = .ok c) :
    ∃ k later, e.keeping = some k ∧ (e.analyze target).1 = .ok c.analysis ∧
      Yields ((e.analyze target).2.keep k c.analysis) (s, clock) c ((e.cycle clock target s).2.2, later) := by
  cases keeping : e.keeping with
  | none =>
    unfold cycle at h
    rw [keeping] at h
    cases h
  | some k =>
    cases analyzed : (e.analyze target).1 with
    | error f =>
      have whole : e.analyze target = (.error f, (e.analyze target).2) := Prod.ext analyzed rfl
      unfold cycle at h
      rw [keeping] at h
      dsimp only at h
      rw [whole] at h
      cases h
    | ok a =>
      rw [cycle_of_analyze_eq_ok keeping analyzed] at h ⊢
      rcases ran : ((e.analyze target).2.keep k a).run.run (s, clock) with ⟨outcome, t, later⟩
      rw [ran] at h
      dsimp only at h
      subst h
      obtain ⟨rfl, -⟩ := keep_eq_ok (show Yields _ (s, clock) c (t, later) from ran)
      exact ⟨k, later, rfl, rfl, ran⟩

/-- what a cycle that ended well has done -/
theorem cycle_eq_ok (h : (e.cycle clock target s).1 = .ok c) :
    ∃ k, e.keeping = some k ∧ (e.analyze target).1 = .ok c.analysis ∧
      ∃ begun recorded stored later,
        startCheck (clock 0) everyRule conductor s = .ok (c.check, begun) ∧
        recordDeltas (clock 1) (.int c.check) (Violation.acceptedPrints c.analysis.violations) begun
          = .ok (c.delta, recorded) ∧
        storeViolations k clock.next.next c.analysis.violations recorded
          = (.ok c.stored, stored, later) ∧
        stored.Keeps (e.cycle clock target s).2.2 := by
  obtain ⟨k, later, keeping, analyzed, kept⟩ := exists_yields_of_cycle_eq_ok h
  exact ⟨k, keeping, analyzed, (keep_eq_ok kept).2⟩

end Engine

end LintLedger
