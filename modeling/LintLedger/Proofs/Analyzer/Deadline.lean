import LintLedger.Proofs.Analyzer.Hearing
import Mathlib

/-!
# Deadlines and failures

A run is waited for until its analyzer's deadline.  It is *late* if it has not ended by then, and cannot be waited
for at all if the deadline is too far away.  A run that is neither tells its own failure, in a report or as it is;
a late one tells of the deadline.  A failure of the kind by which the waiting tells that it has ended is taken for
the end of the waiting, whether or not there is a deadline (`failures_told`).
-/

namespace LintLedger

/-- whether a report says that its run was cut off -/
def Report.timedOut (r : Report) : Bool :=
  match r.notes with
  | .failed _ timedOut => timedOut
  | _ => false

namespace Analyzer

variable {w : Workspace} {a : Analyzer} {target : String} {options : Options} {finding : Option Finding}
  {limit : Option Float} {f : Failure}

/-- whether a run has not ended within a limit: it takes time, and no less than that, or it does not end.  No time
at all is within a limit that is no number -/
def IsLate (limit : Option Float) (finding : Option Finding) : Prop :=
  ∃ x, limit = some x ∧ ∀ one ∈ finding, 0 < one.seconds ∧ ∀ q ∈ Decimal.rational? x, q ≤ one.seconds

/-- whether a run has to be waited for until a limit that is too far away for that -/
def IsRefused (limit : Option Float) (finding : Option Finding) (f : Failure) : Prop :=
  ∃ x, limit = some x ∧ Failure.ofWait? x = some f ∧ ∀ one ∈ finding, 0 < one.seconds

/-- whether a run ends with a failure of its own -/
def Raises (finding : Option Finding) (f : Failure) : Prop := ∃ one ∈ finding, one.outcome = .error f

/-- whether a failure is told: in a report if the analyzer may fail, else as it is -/
def Tells (a : Analyzer) (told : Except Failure Report) (f : Failure) (timedOut : Bool) : Prop :=
  if a.settings.allowFailure then
    ∃ r, told = .ok r ∧ r.success = false ∧ r.error = some f.wording ∧ r.timedOut = timedOut
  else told = .error f

/-! ### Runs that are given up -/

theorem isOverdue_iff {seconds : ℚ} : isOverdue limit seconds = true ↔ ∃ x, limit = some x ∧ 0 < seconds ∧
    ((∃ f, Failure.ofWait? x = some f) ∨ ∀ q ∈ Decimal.rational? x, q ≤ seconds) := by
  cases limit with
  | none => simp [isOverdue]
  | some x => cases read : Decimal.rational? x <;> simp [isOverdue, Option.isSome_iff_exists, read]

theorem givenUp_of_refused (h : IsRefused a.settings.timeout finding f) : a.givenUp = (f, false) := by
  obtain ⟨x, limit, refused, -⟩ := h
  unfold givenUp
  rw [limit, Option.bind_some, refused]

/-- a run that need not be waited for too long but is given up is overdue -/
theorem givenUp_of_late (waited : ∀ f, ¬IsRefused a.settings.timeout finding f)
    (late : IsLate a.settings.timeout finding) : a.givenUp = a.overdue := by
  obtain ⟨x, limit, beyond⟩ := late
  unfold givenUp
  rw [limit, Option.bind_some]
  cases refused : Failure.ofWait? x with
  | none => rfl
  | some f => exact absurd ⟨x, limit, refused, fun one mem => (beyond one mem).1⟩ (waited f)

theorem settle_of_refused (h : IsRefused a.settings.timeout finding f) : a.settle finding = .error (f, false) := by
  rw [← givenUp_of_refused h]
  unfold settle
  obtain ⟨x, limit, refused, long⟩ := h
  cases finding with
  | none => rfl
  | some one => exact if_pos (isOverdue_iff.mpr ⟨x, limit, long one rfl, .inl ⟨f, refused⟩⟩)

theorem settle_of_late (waited : ∀ f, ¬IsRefused a.settings.timeout finding f)
    (late : IsLate a.settings.timeout finding) : a.settle finding = .error a.overdue := by
  rw [← givenUp_of_late waited late]
  unfold settle
  obtain ⟨x, limit, beyond⟩ := late
  cases finding with
  | none => rfl
  | some one => exact if_pos (isOverdue_iff.mpr ⟨x, limit, (beyond one rfl).1, .inr (beyond one rfl).2⟩)

/-- a run that ends in time settles as it ends, unless it fails as a wait does -/
theorem settle_of_inTime {one : Finding} (waited : ∀ f, ¬IsRefused a.settings.timeout (some one) f)
    (inTime : ¬IsLate a.settings.timeout (some one)) : a.settle (some one) =
      match one.outcome with
      | .ok vs => .ok vs
      | .error f => .error (if f.kind = .timeout then a.overdue else (f, false)) := by
  unfold settle
  refine if_neg fun overdue => ?_
  obtain ⟨x, limit, long, ⟨f, refused⟩ | beyond⟩ := isOverdue_iff.mp overdue
  · exact waited f ⟨x, limit, refused, fun _ same => Option.some.inj same ▸ long⟩
  · exact inTime ⟨x, limit, fun _ same => Option.some.inj same ▸ ⟨long, beyond⟩⟩

/-- so a run is cut off if it is late, or if it fails as a wait does -/
theorem settle_of_cut (waited : ∀ f, ¬IsRefused a.settings.timeout finding f)
    (why : IsLate a.settings.timeout finding ∨ ∃ f, Raises finding f ∧ f.kind = .timeout) :
    a.settle finding = .error a.overdue := by
  by_cases late : IsLate a.settings.timeout finding
  · exact settle_of_late waited late
  · obtain ⟨f, ⟨one, same, raised⟩, wait⟩ := why.resolve_left late
    obtain rfl := Option.mem_def.mp same
    rw [settle_of_inTime waited late, raised]
    exact congrArg Except.error (if_pos wait)

theorem settle_of_raises (waited : ∀ f, ¬IsRefused a.settings.timeout finding f) (raised : Raises finding f)
    (inTime : ¬IsLate a.settings.timeout finding) (plain : f.kind ≠ .timeout) :
    a.settle finding = .error (f, false) := by
  obtain ⟨one, same, outcome⟩ := raised
  obtain rfl := Option.mem_def.mp same
  rw [settle_of_inTime waited inTime, outcome]
  exact congrArg Except.error (if_neg plain)

/-! ### What is told -/

theorem wording_overdue (engine : String) (seconds : Float) :
    (Failure.overdue engine seconds).wording = engine ++ " timed out after " ++ Decimal.general seconds ++ "s" := by
  have message : (Failure.overdue engine seconds).message =
      engine ++ " timed out after " ++ Decimal.general seconds ++ "s" := by
    unfold Failure.message
    rfl
  unfold Failure.wording
  rw [message]
  refine if_neg fun empty => ?_
  have chars := congrArg String.toList empty
  simp at chars

theorem tells_of_settledRun (named : '\x00' ∉ target.toList) {timedOut : Bool}
    (h : a.settledRun w target options = .error (f, timedOut)) :
    a.Tells (a.execute w target options).1 f timedOut := by
  obtain ⟨method, same⟩ := find_snd w a (placeOf w target) (a.optionsWith options)
  rw [execute_of_settledRun_eq_error named h, same]
  unfold Tells failed
  split
  · exact ⟨_, rfl, rfl, rfl, rfl⟩
  · rfl

theorem Tells.exists_report {told : Except Failure Report} {timedOut : Bool} (h : a.Tells told f timedOut)
    (lenient : a.settings.allowFailure = true) : ∃ r, told = .ok r ∧ r.timedOut = timedOut := by
  unfold Tells at h
  rw [if_pos lenient] at h
  obtain ⟨r, same, -, -, cut⟩ := h
  exact ⟨r, same, cut⟩

/-- **Failures are told as what they are.**  Of every run of an analyzer on a proper target, whose findings can be
trimmed and that ends unless there is a deadline: if it has to be waited for too long, that is what is told.
Otherwise its report says that it was cut off just if it was late or failed as a wait does, and then the deadline
is told; any other failure in time is told in its own words, and as it is if the analyzer may not fail. -/
theorem failures_told (named : '\x00' ∉ target.toList)
    (ends : (a.find w (placeOf w target) (a.optionsWith options)).1 = none → a.settings.timeout ≠ none)
    (typed : ∀ one ∈ (a.find w (placeOf w target) (a.optionsWith options)).1, ∀ vs, one.outcome = .ok vs →
      ∀ v ∈ vs, v.IsTrimmable) :
    let finding := (a.find w (placeOf w target) (a.optionsWith options)).1
    let told := (a.execute w target options).1
    let late := IsLate a.settings.timeout finding
    let failsAsWait := ∃ f, Raises finding f ∧ f.kind = .timeout
    let overdue := Failure.overdue a.name ((a.settings.timeout.filter (· != 0)).getD 0)
    (∀ f, IsRefused a.settings.timeout finding f → a.Tells told f false) ∧
    ((∀ f, ¬IsRefused a.settings.timeout finding f) →
      (a.settings.allowFailure = true → ∃ r, told = .ok r ∧ (r.timedOut = true ↔ late ∨ failsAsWait)) ∧
      (late ∨ failsAsWait → a.Tells told overdue true ∧ ∀ x, a.settings.timeout = some x → (x != 0) = true →
        overdue.wording = a.name ++ " timed out after " ++ Decimal.general x ++ "s") ∧
      ∀ f, Raises finding f → ¬late → f.kind ≠ .timeout → a.Tells told f false) := by
  intro finding told late failsAsWait overdue
  refine ⟨fun f refused => tells_of_settledRun named (settle_of_refused refused), fun waited => ?_⟩
  have cut : late ∨ failsAsWait → a.Tells told overdue true := fun why =>
    tells_of_settledRun named (settle_of_cut waited why)
  have own : ∀ f, Raises finding f → ¬late → f.kind ≠ .timeout → a.Tells told f false := fun f raised inTime plain =>
    tells_of_settledRun named (settle_of_raises waited raised inTime plain)
  refine ⟨fun lenient => ?_, fun why => ⟨cut why, fun x limit some => ?_⟩, own⟩
  · by_cases why : late ∨ failsAsWait
    · obtain ⟨r, reported, timedOut⟩ := (cut why).exists_report lenient
      exact ⟨r, reported, iff_of_true timedOut why⟩
    · obtain ⟨inTime, plain⟩ := not_or.mp why
      -- a run that does not end is late, as there is a deadline
      obtain ⟨one, same⟩ : ∃ one, finding = some one := by
        refine Option.ne_none_iff_exists'.mp fun none => inTime ?_
        obtain ⟨x, limit⟩ := Option.ne_none_iff_exists'.mp (ends none)
        exact ⟨x, limit, fun one mem => absurd (none ▸ mem) nofun⟩
      cases outcome : one.outcome with
      | error f =>
        have raised : Raises finding f := ⟨one, same, outcome⟩
        have other : f.kind ≠ .timeout := fun wait => plain ⟨f, raised, wait⟩
        obtain ⟨r, reported, timedOut⟩ := (own f raised inTime other).exists_report lenient
        exact ⟨r, reported, iff_of_false (by simp [timedOut]) why⟩
      | ok vs =>
        have settles : a.settledRun w target options = .ok vs := by
          have settled := @settle_of_inTime a one (same ▸ waited) (same ▸ inTime)
          rw [outcome, ← same] at settled
          exact settled
        obtain ⟨r, reported, success, -⟩ := exists_report named settles (typed one same vs outcome)
        obtain ⟨-, -, noted⟩ := execute_eq_ok reported
        obtain ⟨-, -, notes⟩ := noted success
        refine ⟨r, reported, iff_of_false ?_ why⟩
        unfold Report.timedOut
        rw [notes]
        exact nofun
  · have seconds : (a.settings.timeout.filter (· != 0)).getD 0 = x := by
      rw [limit, Option.filter_some, if_pos some]
      rfl
    rw [wording_overdue, seconds]

/-- an analyzer without a deadline that fails -/
def failing (f : Failure) : Analyzer := ⟨"a", .custom, AnalyzerSettings.default, .outside (.fails f) none⟩

theorem failures_told_boom :
    '\x00' ∉ ".".toList ∧ (failing (.foreign .runtime "boom")).Tells
      ((failing (.foreign .runtime "boom")).execute bareProject "." []).1 (.foreign .runtime "boom") false := by
  have named : '\x00' ∉ ".".toList := by decide
  have told := @failures_told bareProject (failing (.foreign .runtime "boom")) "." [] named nofun
    (fun one same vs found => by cases same; cases found)
  refine ⟨named, (told.2 ?_).2.2 _ ⟨_, rfl, rfl⟩ ?_ nofun⟩
  · rintro f ⟨x, limit, -⟩
    cases limit
  · rintro ⟨x, limit, -⟩
    cases limit

/-- a failure of the analyzer itself, which has no deadline, is told as if a deadline had passed, and told so even
if the analyzer may not fail -/
theorem deadline_invented :
    let a := failing (.foreign .timeout "connection timed out")
    let strict := { a with settings := { a.settings with allowFailure := false } }
    a.settings.timeout = none ∧
      (∃ r, (a.execute bareProject "." []).1 = .ok r ∧ r.timedOut = true ∧
        r.error = some (Failure.overdue "a" 0).wording) ∧
      (strict.execute bareProject "." []).1 = .error (.overdue "a" 0) :=
  ⟨rfl, ⟨_, rfl, rfl, rfl⟩, rfl⟩

end Analyzer

end LintLedger
