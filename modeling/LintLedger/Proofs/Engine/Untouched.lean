import LintLedger.Proofs.Engine.Arrival
import LintLedger.Proofs.Engine.Cycle
import LintLedger.Proofs.Engine.Policy
import LintLedger.Proofs.Engine.Promise
import LintLedger.Proofs.Store.Failures
import Mathlib

/-!
# Cycles that leave the store as it was

A cycle writes nothing before its analysis has ended well, and what it fails with once it does write is
never a failure over analyzers or over crossover (`keep_isIncidental`).  So a cycle that fails over either
of them has not touched the store.  It fails over analyzers just if the run of one of them failed, and then
with all that failed and all that the others report, whatever the policy would have said
(`untouched_over_failures`).
-/

namespace LintLedger

open Outcome

namespace Store

/-! ### Work that fails incidentally -/

variable {α β : Type}

/-- work on a store by a clock that never fails over analyzers or crossover -/
def IsSafeWork (m : Work α) : Prop :=
  Promises (ofStore fun _ => True) m (fun _ => ofStore fun _ => True)
    fun f => ofStore fun _ => f.IsIncidental

namespace IsSafeWork

theorem pure (a : α) : IsSafeWork (pure a) := Promises.pure fun _ _ => trivial

theorem throw {f : Failure} (h : f.IsIncidental) : IsSafeWork (throw f : Work α) := Promises.throw fun _ _ => h

theorem bind {m : Work α} {f : α → Work β} (hm : IsSafeWork m) (hf : ∀ a, IsSafeWork (f a)) :
    IsSafeWork (m >>= f) := Promises.bind hm hf

theorem forM {items : List β} {work : β → Work Unit} (step : ∀ i, IsSafeWork (work i)) :
    IsSafeWork (items.forM work) :=
  Promises.forM (K := fun _ => ofStore fun _ => True) fun i _ _ => step i

/-- work whose failures are taken up by work that is safe if they are incidental -/
theorem tryCatch {m : Work α} {handle : Failure → Work α} (hm : IsSafeWork m)
    (hf : ∀ f, f.IsIncidental → IsSafeWork (handle f)) : IsSafeWork (tryCatch m handle) :=
  Promises.tryCatch hm fun f x incidental => hf f incidental x trivial

theorem given {outcome : Except Failure α} (h : IsSafe outcome) : IsSafeWork (given outcome) :=
  Promises.given (fun _ _ _ _ => trivial) fun _ f failed _ => h f failed

theorem commit {work : Instant → Store → Except Failure (α × Store)} (h : ∀ now s, IsSafe (work now s)) :
    IsSafeWork (timed fun now => commit (work now)) :=
  Promises.timed fun now => Promises.commit (fun _ _ _ _ _ => trivial) fun s f _ failed => h now s f failed

theorem commitChange {work : Instant → Store → Except Failure Store} (h : ∀ now s, IsSafe (work now s)) :
    IsSafeWork (timed fun now => commitChange (work now)) :=
  commit fun now s => .map (h now s)

theorem storing (k : StoreSettings) (vs : List Violation) : IsSafeWork (storing k vs) := by
  intro x _
  obtain ⟨s, clock⟩ := x
  have run : (Store.storing k vs).run.run (s, clock) = storeViolations k clock vs s := rfl
  rw [run]
  rcases stored : storeViolations k clock vs s with ⟨f | r, y⟩
  · exact isSafe_storeViolations k clock vs f (congrArg Prod.fst stored)
  · trivial

end IsSafeWork

end Store

namespace Engine

open Store

variable {e : Engine} {k : StoreSettings} {target : Option String} {s : Store} {clock : Clock}

theorem recordRun_isSafe (r : Report) : IsSafeWork (recordRun r) := by
  refine .bind (.commit fun now s => isSafe_startCheck _ _) fun check =>
    .bind (.given (isSafe_orFail _)) fun n => ?_
  by_cases success : r.success = true
  · simp only [success]
    exact .commitChange fun now s => isSafe_completeCheck _ _ _
  · simp only [success]
    exact .commitChange fun now s => isSafe_failCheck _ _ _

theorem recordAnalysis_isSafe (check : Int) (a : Analysis) : IsSafeWork (recordAnalysis k check a) :=
  .bind (.given (isSafe_orFail _)) fun _ => .bind (.commit fun _ _ => isSafe_recordDeltas _ _) fun _ =>
    .bind (.storing k _) fun _ => .bind (.forM recordRun_isSafe) fun _ =>
      .bind (.commitChange fun _ _ => isSafe_recordMetric _ _ _ _ _) fun _ => .pure _

theorem markFailed_isSafe (check : Int) (f : Failure) : IsSafeWork (markFailed check f) := by
  refine .tryCatch (.commitChange fun _ _ => isSafe_failCheck _ _ _) fun g incidental => ?_
  split
  · exact .pure ()
  · exact .throw incidental

theorem saveSchedules_isSafe : IsSafeWork (untimed e.saveSchedules) := by
  have each : Promises (fun _ => True) e.saveSchedules (fun _ _ => True) fun f _ => f.IsIncidental := by
    refine .forM (K := fun _ _ => True) fun a _ _ => ?_
    split
    · exact .commitChange (fun _ _ _ _ => trivial) fun s f _ failed => isSafe_saveSchedules _ _ f failed
    · exact .pure fun _ _ => trivial
  exact Promises.untimed each

/-- keeping an analysis never fails over analyzers or crossover -/
theorem keep_isIncidental (e : Engine) (k : StoreSettings) (a : Analysis) : IsSafeWork (e.keep k a) := by
  refine .bind (.commit fun _ _ => isSafe_startCheck _ _) fun check => .bind ?_ fun done =>
    .bind (.commitChange fun _ _ => isSafe_completeCheck _ _ _) fun _ =>
      .bind saveSchedules_isSafe fun _ => .pure _
  refine .tryCatch (recordAnalysis_isSafe check a) fun f incidental => ?_
  dsimp only
  split
  · exact .bind (markFailed_isSafe check f) fun _ => .throw incidental
  · exact .throw incidental

/-! ### What a cycle fails with -/

/-- how the run of an analyzer on the target of an analysis ends -/
def outcomeOf (e : Engine) (target : Option String) (a : Analyzer) : Except Failure Report :=
  (a.execute e.workspace (e.targetOf target) []).1

/-- the failures of the runs that fail, under the names of their analyzers by priority -/
def raised (e : Engine) (target : Option String) : List (String × Failure) :=
  e.ordered.filterMap fun a => match e.outcomeOf target a with
    | .ok _ => none
    | .error f => some (a.name, f)

/-- the reports of all other runs by the priority of their analyzers -/
def answered (e : Engine) (target : Option String) : List Report :=
  e.ordered.filterMap fun a => (e.outcomeOf target a).toOption

theorem unsettled_runOf : unsettled (e.ordered.map (e.runOf (e.targetOf target))) = e.raised target := by
  unfold unsettled raised
  rw [List.filterMap_map]
  refine List.filterMap_congr fun a _ => ?_
  dsimp only [Function.comp]
  rw [runOf_name]
  rfl

theorem settled_runOf : settled (e.ordered.map (e.runOf (e.targetOf target))) = e.answered target := by
  unfold settled answered
  rw [List.filterMap_map]
  refine List.filterMap_congr fun a _ => ?_
  dsimp only [Function.comp]
  change (match e.outcomeOf target a with | .ok report => some report | .error _ => none) = _
  cases e.outcomeOf target a <;> rfl

/-- an analysis in which the run of an analyzer fails is given up with all failures and all reports -/
theorem analyze_eq_error (failed : ∃ a ∈ e.analyzers, ∃ g, e.outcomeOf target a = .error g) :
    (e.analyze target).1 = .error (.analysis (e.raised target) (e.answered target)) := by
  obtain ⟨a, ha, g, ran⟩ := failed
  have some : (a.name, g) ∈ e.raised target := by
    refine List.mem_filterMap.mpr ⟨a, List.mem_mergeSort.mpr ha, ?_⟩
    rw [ran]
  rw [analyze_fst]
  change e.conclude (e.ordered.map (e.runOf (e.targetOf target))) = _
  rw [conclude_of_unsettled_ne_nil, unsettled_runOf, settled_runOf]
  rw [unsettled_runOf]
  exact List.ne_nil_of_mem some

/-- a cycle fails over analyzers or crossover just if its analysis does -/
theorem cycle_eq_error_iff (keeping : e.keeping = some k) {f : Failure} (decided : ¬f.IsIncidental) :
    (e.cycle clock target s).1 = .error f ↔ (e.analyze target).1 = .error f := by
  cases analyzed : (e.analyze target).1 with
  | error g =>
    have whole : e.analyze target = (.error g, (e.analyze target).2) := Prod.ext analyzed rfl
    unfold cycle
    rw [keeping]
    dsimp only
    rw [whole]
    constructor <;>
    · rintro ⟨⟩
      rfl
  | ok a =>
    refine iff_of_false (fun failed => ?_) nofun
    rw [cycle_of_analyze_eq_ok keeping analyzed] at failed
    have safe := keep_isIncidental (e.analyze target).2 k a (s, clock) trivial
    rcases ran : ((e.analyze target).2.keep k a).run.run (s, clock) with ⟨g | c, y⟩ <;>
      rw [ran] at safe failed
    · cases failed
      exact decided safe
    · cases failed

/-- a cycle whose analysis fails leaves the store as it was -/
theorem store_of_analyze_eq_error {f : Failure} (analyzed : (e.analyze target).1 = .error f) :
    (e.cycle clock target s).2.2 = s := by
  have whole : e.analyze target = (.error f, (e.analyze target).2) := Prod.ext analyzed rfl
  unfold cycle
  cases e.keeping with
  | none => rfl
  | some k =>
    dsimp only
    rw [whole]

/-- **A failed analysis leaves the store as it was.** Whatever analyzers an engine has and whatever its store
holds, a cycle that fails over analyzers or over crossover changes nothing of the store.  It fails over
analyzers just if the run of one of them fails; then with the failures of all runs that fail and with the
reports of all others by priority, so that the policy on crossover is not even asked; and all of this in
whatever order the runs of analyzers of different names end, but for the order in which the failures are
told. -/
theorem untouched_over_failures (keeping : e.keeping = some k) (clock : Clock) (target : Option String)
    (s : Store) :
    (∀ f, (e.cycle clock target s).1 = .error f → f.kind = .analysis ∨ f.kind = .crossover →
      (e.cycle clock target s).2.2 = s) ∧
    ((∃ f, (e.cycle clock target s).1 = .error f ∧ f.kind = .analysis) ↔
      ∃ a ∈ e.analyzers, ∃ g, e.outcomeOf target a = .error g) ∧
    ((∃ a ∈ e.analyzers, ∃ g, e.outcomeOf target a = .error g) →
      (e.cycle clock target s).1 = .error (.analysis (e.raised target) (e.answered target)) ∧
      ((e.analyzers.map (·.name)).Nodup → ∀ ended, ended.Perm (e.runAll (e.targetOf target)) →
        ∃ failures, failures.Perm (e.raised target) ∧
          e.arrive ended = .error (.analysis failures (e.answered target)))) := by
  have analysis : ∀ {f : Failure}, f.kind = .analysis → ¬f.IsIncidental := fun kind safe => safe.1 kind
  have crossover : ∀ {f : Failure}, f.kind = .crossover → ¬f.IsIncidental := fun kind safe => safe.2 kind
  refine ⟨fun f failed kind => ?_, ?_, fun failed => ⟨?_, fun apart ended perm => ?_⟩⟩
  · exact store_of_analyze_eq_error
      ((cycle_eq_error_iff keeping (kind.elim analysis crossover)).mp failed)
  · rw [show (∃ a ∈ e.analyzers, ∃ g, e.outcomeOf target a = .error g) ↔
      ∃ f, (e.analyze target).1 = .error f ∧ f.kind = .analysis from exists_kind_analysis_iff.symm]
    exact exists_congr fun f => and_congr_left fun kind => cycle_eq_error_iff keeping (analysis kind)
  · exact (cycle_eq_error_iff keeping (analysis rfl)).mpr (analyze_eq_error failed)
  · have byPriority := perm.trans (List.mergeSort_perm _ fun a b : Run =>
      decide (a.analyzer.settings.priority ≤ b.analyzer.settings.priority)).symm
    change ended.Perm (runsByPriority _) at byPriority
    rw [runsByPriority_runAll] at byPriority
    have whole := analyze_eq_error failed
    rw [analyze_fst] at whole
    rcases sameOutcome_arrive apart (map_name_runOf _ _) byPriority with same | ⟨fs, gs, reports, told, one, two⟩
    · exact ⟨_, .refl _, same.trans whole⟩
    · obtain ⟨rfl, rfl⟩ := Failure.analysis.inj (Except.error.inj (two.symm.trans whole))
      exact ⟨fs, told, one⟩

/-! ### Crossover, and a failure that comes before it -/

/-- an analyzer that reports for the linter what the policy does not allow -/
def blamer : Analyzer :=
  ⟨"eslint", .eslint, .default, .outside (.finds [⟨.text "a.ts", .int 1, .text "any", .known .noExplicitAny,
    .known .error, .known .eslint, .null, .text "@typescript-eslint/no-explicit-any", .null, .null⟩]) none⟩

/-- an analyzer that fails and may not -/
def breaking : Analyzer :=
  ⟨"late", .custom, { AnalyzerSettings.default with priority := 9, allowFailure := false },
    .outside (.fails (.foreign .runtime "broken")) none⟩

/-- an engine with some analyzers that keeps its results and fails over crossover -/
def guarded (analyzers : List Analyzer) : Engine := ⟨strict, barren, some {}, analyzers⟩

theorem untouched_over_failures_guarded :
    (∃ f, ((guarded [blamer]).cycle (.still ⟨1⟩) none .empty).1 = .error f ∧ f.kind = .crossover) ∧
    ((guarded [blamer]).cycle (.still ⟨1⟩) none .empty).2.2 = .empty ∧
    (∃ failures reports, ((guarded [breaking, blamer]).cycle (.still ⟨1⟩) none .empty).1 =
        .error (.analysis failures reports) ∧
      failures.map Prod.fst = ["late"] ∧ reports.map (·.engine) = ["eslint"]) ∧
    ((guarded [breaking, blamer]).cycle (.still ⟨1⟩) none .empty).2.2 = .empty := by
  have crossed : (match ((guarded [blamer]).cycle (.still ⟨1⟩) none .empty).1 with
      | .error f => decide (f.kind = .crossover)
      | .ok _ => false) = true := by
    decide +kernel
  obtain ⟨f, failed, kind⟩ : ∃ f, ((guarded [blamer]).cycle (.still ⟨1⟩) none .empty).1 = .error f ∧
      f.kind = .crossover := by
    split at crossed
    · rename_i f failed
      exact ⟨f, failed, of_decide_eq_true crossed⟩
    · cases crossed
  obtain ⟨untouched, -, -⟩ := untouched_over_failures (e := guarded [blamer]) rfl (.still ⟨1⟩) none .empty
  obtain ⟨untouched', -, whole⟩ :=
    untouched_over_failures (e := guarded [breaking, blamer]) rfl (.still ⟨1⟩) none .empty
  obtain ⟨broken, -⟩ := whole ⟨breaking, List.mem_cons_self, _, rfl⟩
  have order : (guarded [breaking, blamer]).ordered = [blamer, breaking] := by
    simp [ordered, byPriority, guarded, List.mergeSort, blamer, breaking, AnalyzerSettings.default]
  have names : ((guarded [breaking, blamer]).raised none).map Prod.fst = ["late"] ∧
      ((guarded [breaking, blamer]).answered none).map (·.engine) = ["eslint"] := by
    unfold raised answered
    rw [order]
    decide +kernel
  exact ⟨⟨f, failed, kind⟩, untouched f failed (.inr kind), ⟨_, _, broken, names⟩,
    untouched' _ broken (.inl rfl)⟩

end Engine

end LintLedger
