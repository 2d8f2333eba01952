import LintLedger.Proofs.Engine.Agreement
import LintLedger.Proofs.Engine.Findings
import LintLedger.Proofs.Engine.Promise
import LintLedger.Proofs.Store.Faults
import Mathlib

/-!
# How the check of a cycle ends

The check that a cycle begins is touched again only when the cycle ends it: each run is a check with a
number of its own.  So it ends as completed once all has been recorded, as failed if the store failed on
the way, and goes on running if anything else did.
-/

namespace LintLedger

open Outcome

/-! ### Numbers that fit -/

/-- whether the numbers that are written of a run fit the store -/
structure Report.Fits (r : Report) : Prop where
  time : ∃ n, r.elapsed.milliseconds = .ok n ∧ Store.fits n
  found : Store.fits r.violations.length
  rule : ∀ i, r.checkedRule? = some (.int i) → Store.fits i

/-- whether the numbers that are written of an analysis fit the store -/
structure Analysis.Fits (a : Analysis) : Prop where
  line : ∀ v ∈ a.violations, ∀ i, v.line = .int i → Store.fits i
  column : ∀ v ∈ a.violations, ∀ i, v.column = .int i → Store.fits i
  reports : ∀ r ∈ a.reports, r.Fits

namespace Engine

open Store

variable {k : StoreSettings} {e : Engine} {s t : Store} {row : CheckRow} {more : Nat} {a : Analysis}

/-! ### What is done while a check goes on -/

/-- the failures of work during which a check goes on: all of them of the store if some numbers fit -/
def Fails (row : CheckRow) (fitting : Prop) (f : Failure) (s : Store) : Prop :=
  (∃ more, Holds row more s) ∧ (fitting → f.kind = .storage)

theorem checkedRule?_of_ruleOf {r : Report} {i : Int} (h : ruleOf r = .int i) :
    r.checkedRule? = some (.int i) := by
  unfold ruleOf at h
  split at h
  · rename_i v checked
    split at h
    · rw [checked, h]
    · cases h
  · cases h

/-- another check may be changed, and is if what is written of it can be -/
theorem changeOther_promises {action : StoreAction} {change : CheckRow → Except Failure CheckRow}
    {check : Int} {fitting : Prop} (same : ∀ r r', change r = .ok r' → r'.id = r.id)
    (total : fitting → ∀ r, ∃ r', change r = .ok r') :
    Promises (fun s => Holds row more s ∧ check ≠ row.id ∧ fits check)
      (commitChange (changeCheck action check change)) (fun _ => Holds row more) (Fails row fitting) :=
  .commitChange (fun _ _ holds done => holds.1.changeCheck holds.2.1 same done) fun _ _ holds failed =>
    ⟨⟨_, holds.1⟩, fun fitting => (changeCheck_kind holds.2.2 (total fitting) failed).1⟩

/-- the run of an analyzer takes a number for a check of its own, and leaves every other check alone -/
theorem recordRun_promises (r : Report) :
    Promises (ofStore (Holds row (more + 1))) (recordRun r) (fun _ => ofStore (Holds row more))
      (fun f => ofStore (Fails row r.Fits f)) := by
  unfold recordRun
  refine .bind (Q := fun check => ofStore fun s => Holds row more s ∧ check ≠ row.id ∧ fits check)
    (.timed fun now => .commit (fun s check t holds begun => holds.startCheck begun)
      fun s f holds failed => ⟨⟨_, holds⟩, fun fitting => ?_⟩) fun check => ?_
  · exact startCheck_kind (fun i hi => fitting.rule i (checkedRule?_of_ruleOf hi)) failed
  refine .bind (Q := fun n => ofStore fun s => (Holds row more s ∧ check ≠ row.id ∧ fits check) ∧
      r.elapsed.milliseconds = .ok n)
    (.given (fun s n taken holds => ⟨holds, orFail_eq_ok.mp taken⟩) fun s f failed holds =>
      ⟨⟨_, holds.1⟩, fun fitting => ?_⟩) fun n => ?_
  · obtain ⟨n, taken, -⟩ := fitting.time
    rw [taken] at failed
    cases failed
  rintro x ⟨holds, taken⟩
  have whole : r.Fits → fits n := by
    intro fitting
    obtain ⟨n', taken', whole⟩ := fitting.time
    exact Except.ok.inj (taken'.symm.trans taken) ▸ whole
  have start : ofStore (fun s => Holds row more s ∧ check ≠ row.id ∧ fits check) x := holds
  refine Promises.timed (fun now => ?_) x start
  -- what is written of the run does not change its number, and can be written if it fits
  split
  · refine changeOther_promises (fun r r' changed => ?_) fun fitting row => ⟨_, bind_eq_ok.mpr
      ⟨_, countColumn_of_fits fitting.found, bind_eq_ok.mpr
        ⟨_, countColumn_of_fits (whole fitting), rfl⟩⟩⟩
    obtain ⟨_, -, changed⟩ := bind_eq_ok.mp changed
    obtain ⟨_, -, changed⟩ := bind_eq_ok.mp changed
    cases changed
    rfl
  · refine changeOther_promises (fun r r' changed => ?_) fun fitting row => ⟨_, bind_eq_ok.mpr
      ⟨_, countColumn_of_fits (whole fitting), rfl⟩⟩
    obtain ⟨_, -, changed⟩ := bind_eq_ok.mp changed
    obtain ⟨_, -, changed⟩ := bind_eq_ok.mp changed
    cases changed
    rfl

/-- the fingerprints of findings whose types are right can be taken -/
theorem exists_currentFingerprints {vs : List Violation}
    (typed : ∀ v ∈ vs, (∃ problems, v.problems = .ok problems) ∧ v.IsTrimmable) :
    ∃ prints, currentFingerprints vs = .ok prints := by
  have each : ∀ v ∈ vs, ∃ print, (do
      let problems ← v.problems
      if problems.isEmpty then (v.fingerprint).map some else .ok none) = Except.ok print := by
    intro v hv
    obtain ⟨⟨problems, told⟩, texts⟩ := typed v hv
    obtain ⟨f, print⟩ := Violation.exists_fingerprint_eq_ok texts
    rw [told, print]
    dsimp only [bind, Except.bind]
    split
    · exact ⟨_, rfl⟩
    · exact ⟨_, rfl⟩
  obtain ⟨prints, taken⟩ := exists_mapM_eq_ok.mpr each
  exact ⟨_, bind_eq_ok.mpr ⟨prints, taken, rfl⟩⟩

theorem recordDeltas_promises {now : Instant} {prints : List String} :
    Promises (Holds row more) (commit (recordDeltas now (.int row.id) prints)) (fun _ => Holds row more)
      (Fails row True) := by
  refine .commit (fun s d t holds done => ?_) fun s f holds failed => ?_
  · obtain ⟨rows, -, -, ⟨-, rfl⟩ | ⟨history, number, -, -, rfl⟩⟩ := recordDeltas_eq_ok done
    · exact holds
    · exact holds.congr rfl
  · exact ⟨⟨more, holds⟩, fun _ => recordDeltas_kind holds.fits failed⟩

theorem storing_promises {vs : List Violation} :
    Promises (ofStore (Holds row more)) (storing k vs) (fun _ => ofStore (Holds row more))
      (fun f => ofStore (Fails row (∀ v ∈ vs, v.IsStorable) f)) := by
  intro x holds
  obtain ⟨s, clock⟩ := x
  have run : (storing k vs).run.run (s, clock) = storeViolations k clock vs s := rfl
  have kept : Holds row more (storeViolations k clock vs s).2.1 := by
    obtain ⟨rows, left⟩ := exists_storeViolations_snd k clock vs s
    exact holds.congr (by rw [left])
  rw [run]
  rcases stored : storeViolations k clock vs s with ⟨f | r, y⟩ <;> rw [stored] at kept
  · exact ⟨⟨more, kept⟩, fun storable => storeViolations_kind storable (congrArg Prod.fst stored)⟩
  · exact kept

theorem recordMetric_promises {now : Instant} {kind unit : String} {x : Float} {context : Value} :
    Promises (Holds row more) (commitChange (recordMetric k now (.text kind) (.float x) (.text unit) context))
      (fun _ => Holds row more) (Fails row True) := by
  refine .commitChange (fun s t holds done => ?_) fun s f holds failed => ?_
  · obtain ⟨rows, -, rfl⟩ := recordMetric_eq_ok done
    exact holds.congr rfl
  · exact ⟨⟨more, holds⟩, fun _ => recordMetric_kind failed⟩

theorem Fails.mono {few many : Prop} {f : Failure} (h : Fails row few f s) (implies : many → few) :
    Fails row many f s :=
  ⟨h.1, fun fitting => h.2 (implies fitting)⟩

/-- recording an analysis leaves the check under whose number it is recorded, and fails only with the
store if its numbers fit -/
theorem recordAnalysis_promises
    (typed : ∀ v ∈ a.violations, (∃ problems, v.problems = .ok problems) ∧ v.IsTrimmable) :
    Promises (ofStore (Holds row a.reports.length)) (recordAnalysis k row.id a)
      (fun _ => ofStore (Holds row 0)) (fun f => ofStore (Fails row a.Fits f)) := by
  have storable : a.Fits → ∀ v ∈ a.violations, v.IsStorable := fun fitting v hv =>
    ⟨(typed v hv).1, (typed v hv).2, fitting.line v hv, fitting.column v hv⟩
  unfold recordAnalysis
  refine .bind (Q := fun _ => ofStore (Holds row a.reports.length))
    (.given (fun s current taken holds => holds) fun s f failed holds => ?_) fun current => ?_
  · obtain ⟨prints, taken⟩ := exists_currentFingerprints typed
    rw [taken] at failed
    cases failed
  refine .bind (.failing (.timed fun now => recordDeltas_promises) fun f x failed =>
    failed.mono fun _ => trivial) fun delta => ?_
  refine .bind (.failing storing_promises fun f x failed => failed.mono storable) fun stored => ?_
  -- each run takes one of the numbers that are left
  refine .bind (Q := fun _ => ofStore (Holds row 0)) ?_ fun _ => ?_
  · exact .forM (K := fun rest => ofStore (Holds row rest.length)) fun r rest hr =>
      .failing (recordRun_promises r) fun f x failed => failed.mono fun fitting => fitting.reports r hr
  exact .bind (.failing (.timed fun now => recordMetric_promises) fun f x failed =>
    failed.mono fun _ => trivial) fun _ => .pure fun _ h => h

/-! ### How a check comes to its end -/

/-- whether the check of a number has a status -/
def Stands (check : Int) (status : CheckStatus) (s : Store) : Prop :=
  ∃ row, s.checksOf check = [row] ∧ row.status = status

theorem Holds.stands_of_changeCheck {action : StoreAction} {change : CheckRow → CheckRow}
    (holds : Holds row more s) (same : ∀ r, (change r).id = r.id)
    (done : changeCheck action row.id (fun r => .ok (change r)) s = .ok t) :
    t.checksOf row.id = [change row] := by
  obtain ⟨own, -, -⟩ := changeCheck_checksOf (fun r r' changed => by cases changed; exact same r) done
  rw [holds.own] at own
  exact (Except.ok.inj own).symm

/-- a check that goes on can be ended, whatever the end is -/
theorem changeCheck_promises {action : StoreAction} {change : CheckRow → CheckRow} {status : CheckStatus}
    {F : Failure → Store → Prop} (same : ∀ r, (change r).id = r.id) (ends : ∀ r, (change r).status = status) :
    Promises (Holds row more) (commitChange (changeCheck action row.id fun r => .ok (change r)))
      (fun _ => Stands row.id status) F := by
  refine .commitChange (fun s t holds done => ?_) fun s f holds failed => ?_
  · exact ⟨change row, Holds.stands_of_changeCheck holds same done, ends row⟩
  · obtain ⟨rows, known, -⟩ := holds.exists_mem
    have lost := (changeCheck_kind holds.fits (fun r => ⟨_, rfl⟩) failed).2
    rw [known] at lost
    cases lost

theorem markFailed_promises {F : Failure → Store → Prop} (f : Failure) :
    Promises (ofStore (Holds row more)) (markFailed row.id f)
      (fun _ => ofStore (Stands row.id .failed)) (fun f => ofStore (F f)) := by
  unfold markFailed
  refine .tryCatch (E := fun _ => ofStore fun _ => False) (.timed fun now => ?_)
    fun g x never => False.elim never
  rw [failCheck_eq (by decide)]
  exact changeCheck_promises (fun _ => rfl) fun _ => rfl

theorem saveSchedules_promises {check : Int} {status : CheckStatus} :
    Promises (Stands check status) e.saveSchedules (fun _ => Stands check status)
      (fun f t => Stands check status t ∧ ∃ u, e.saveSchedules.run.run u = (.error f, t)) := by
  have kept : Preserves (Stands check status) e.saveSchedules :=
    preserves_saveSchedules fun _ _ stands => stands
  intro s stands
  have after := kept s stands
  rcases run : e.saveSchedules.run.run s with ⟨f | u, t⟩ <;> rw [run] at after
  · exact ⟨after, s, run⟩
  · exact after

/-! ### The whole cycle -/

variable {rows : List CheckRow} {clock : Clock} {target : Option String}

/-- the row of the check that a cycle begins -/
def opened (now : Instant) (rows : List CheckRow) : CheckRow :=
  ⟨nextId CheckRow.id rows, "all", "orchestrator", .running, now, none, 0, 0, none⟩

/-- the store once that check has begun -/
def begun (now : Instant) (rows : List CheckRow) (s : Store) : Store :=
  { s with checks := some (rows ++ [opened now rows]) }

theorem holds_begun {now : Instant} (room : fits (nextId CheckRow.id rows + more)) :
    Holds (opened now rows) more (begun now rows s) := by
  have number : (opened now rows).id = nextId CheckRow.id rows := rfl
  have positive : 1 ≤ nextId CheckRow.id rows := one_le_nextId
  refine ⟨?_, by omega, fun rows' known => ?_⟩
  · have others : rows.filter (·.id = (opened now rows).id) = [] := by
      refine List.filter_eq_nil_iff.mpr fun r hr => ?_
      have below := lt_nextId CheckRow.id hr
      simp only [decide_eq_true_eq]
      omega
    unfold checksOf begun
    dsimp only [Option.getD_some]
    rw [List.filter_append, others, List.filter_cons_of_pos (by simp)]
    rfl
  · cases known
    rw [nextId_snoc number]
    rwa [Int.add_sub_cancel]

/-- how a cycle whose check has begun may fail, and how its check stands then -/
def Ends (e : Engine) (a : Analysis) (check : Int) (f : Failure) (t : Store) : Prop :=
  f.kind = .storage ∧ Stands check .failed t ∨
  f.kind ≠ .storage ∧ ¬a.Fits ∧ Stands check .running t ∨
  Stands check .completed t ∧ ∃ u, e.saveSchedules.run.run u = (.error f, t)

/-- recording an analysis ends its check if it fails with the store, and otherwise leaves it as it is -/
theorem recording_promises
    (typed : ∀ v ∈ a.violations, (∃ problems, v.problems = .ok problems) ∧ v.IsTrimmable)
    (running : row.status = .running) :
    Promises (ofStore (Holds row a.reports.length))
      (tryCatch (recordAnalysis k row.id a) fun f => do
        if f.kind = .storage then markFailed row.id f
        throw f)
      (fun _ => ofStore (Holds row 0)) (fun f => ofStore (e.Ends a row.id f)) := by
  refine .tryCatch (recordAnalysis_promises typed) fun f => ?_
  dsimp only
  split
  · rename_i storage
    rintro x ⟨⟨more, holds⟩, -⟩
    exact Promises.bind (markFailed_promises f) (fun _ => .throw fun y stands => .inl ⟨storage, stands⟩) x
      holds
  · rename_i other
    refine .throw fun x failed => .inr (.inl ⟨other, fun fitting => other (failed.2 fitting), row, ?_, running⟩)
    obtain ⟨more, holds⟩ := failed.1
    exact holds.own

/-- a cycle ends its check -/
theorem keep_promises
    (typed : ∀ v ∈ a.violations, (∃ problems, v.problems = .ok problems) ∧ v.IsTrimmable)
    (room : fits (nextId CheckRow.id rows + a.reports.length)) (counted : fits a.violations.length) :
    Promises (ofStore fun s => s.checks = some rows) (e.keep k a)
      (fun c => ofStore fun t => c.analysis = a ∧ c.check = nextId CheckRow.id rows ∧
        Stands (nextId CheckRow.id rows) .completed t)
      (fun f => ofStore (e.Ends a (nextId CheckRow.id rows) f)) := by
  rintro ⟨s, clock⟩ known
  have started : startCheck (clock 0) everyRule conductor s =
      .ok (nextId CheckRow.id rows, begun (clock 0) rows s) := by
    unfold startCheck
    rw [show s.checks = some rows from known]
    rfl
  have running : (opened (clock 0) rows).status = .running := rfl
  have holds : ofStore (Holds (opened (clock 0) rows) a.reports.length)
      (begun (clock 0) rows s, clock.next) := holds_begun room
  unfold keep
  rw [run_bind, run_timed, run_commit, started]
  dsimp only
  refine Promises.bind (recording_promises typed running) (fun done => ?_) _ holds
  obtain ⟨delta, stored⟩ := done
  dsimp only
  refine .bind (Q := fun _ => ofStore (Stands (nextId CheckRow.id rows) .completed)) ?_ fun _ => ?_
  · refine .timed fun now => ?_
    rw [completeCheck_eq counted (by decide)]
    exact changeCheck_promises (fun _ => rfl) fun _ => rfl
  refine .bind (Q := fun _ => ofStore (Stands (nextId CheckRow.id rows) .completed)) ?_ fun _ => ?_
  · exact .failing (.untimed saveSchedules_promises) fun f x failed => .inr (.inr failed)
  · exact .pure fun x stands => ⟨rfl, rfl, stands⟩

/-- a violation so far down its file that its line does not fit -/
def farDown : Violation := { sample with line := .int (2 ^ 63) }

end Engine

end LintLedger
