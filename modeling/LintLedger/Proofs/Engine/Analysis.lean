import LintLedger.Engine
import LintLedger.Proofs.Analyzer.Contract
import LintLedger.Proofs.Outcome
import Mathlib

/-!
# Analyses that are given up

An analysis is given up for the sake of its analyzers just if the run of one of them failed, whatever
became of the others (`exists_kind_analysis_iff`).  Any other failure of an analysis comes from what
was made of its reports, and is of another kind.
-/

namespace LintLedger.Engine

open Outcome

variable {e : Engine} {runs : List Run} {target : Option String}

theorem mem_runsByPriority {r : Run} : r ∈ runsByPriority runs ↔ r ∈ runs := by
  unfold runsByPriority
  exact List.mem_mergeSort

/-- analyzers of different names have different names by priority, too -/
theorem nodup_ordered (apart : (e.analyzers.map (·.name)).Nodup) : (e.ordered.map (·.name)).Nodup :=
  ((List.mergeSort_perm _ _).map _).nodup_iff.mpr apart

/-- the run of an analyzer on a target -/
def runOf (e : Engine) (target : String) (a : Analyzer) : Run :=
  ⟨(a.execute e.workspace target []).2, (a.execute e.workspace target []).1⟩

theorem runOf_name (e : Engine) (target : String) (a : Analyzer) :
    (e.runOf target a).analyzer.name = a.name := by
  obtain ⟨method, same⟩ := a.execute_snd e.workspace target []
  unfold runOf
  rw [same]

theorem runAll_eq (target : String) : e.runAll target = e.analyzers.map (e.runOf target) := rfl

/-- the runs by the priority of their analyzers are those of the analyzers by priority -/
theorem runsByPriority_runAll (target : String) :
    runsByPriority (e.runAll target) = e.ordered.map (e.runOf target) := by
  have priority : ∀ a : Analyzer, (e.runOf target a).analyzer.settings = a.settings := by
    intro a
    obtain ⟨method, same⟩ := a.execute_snd e.workspace target []
    unfold runOf
    rw [same]
  unfold runsByPriority ordered byPriority
  rw [runAll_eq]
  refine (List.map_mergeSort fun a _ b _ => ?_).symm
  rw [priority, priority]

theorem map_name_runOf (target : String) (analyzers : List Analyzer) :
    (analyzers.map (e.runOf target)).map (·.analyzer.name) = analyzers.map (·.name) := by
  rw [List.map_map]
  exact List.map_congr_left fun a _ => runOf_name e target a

/-- an analysis is made of the runs of the analyzers by priority -/
theorem analyze_fst (target : Option String) : (e.analyze target).1 =
    e.conclude (e.ordered.map (e.runOf (target.getD e.settings.targetPath))) := by
  unfold analyze
  dsimp only
  rw [runsByPriority_runAll]

/-- an analysis changes nothing of an engine but its analyzers, each of which is what its run has left -/
theorem analyze_snd (e : Engine) (target : Option String) : (e.analyze target).2 = { e with
    analyzers := e.analyzers.map fun b =>
      (b.execute e.workspace (target.getD e.settings.targetPath) []).2 } := by
  unfold analyze
  dsimp only
  rw [runAll_eq, List.map_map]
  rfl

theorem mem_settled {report : Report} : report ∈ settled runs ↔ ∃ r ∈ runs, r.outcome = .ok report := by
  unfold settled
  rw [List.mem_filterMap]
  refine exists_congr fun r => and_congr_right fun _ => ?_
  cases r.outcome <;> simp

/-- no failure is left just if every run settled -/
theorem unsettled_eq_nil_iff : unsettled runs = [] ↔ ∀ r ∈ runs, ∃ report, r.outcome = .ok report := by
  unfold unsettled
  rw [List.filterMap_eq_nil_iff]
  refine forall₂_congr fun r _ => ?_
  cases r.outcome <;> simp

theorem conclude_of_unsettled_ne_nil (h : unsettled runs ≠ []) :
    e.conclude runs = .error (.analysis (unsettled runs) (settled runs)) := by
  have some : (!(unsettled runs).isEmpty) = true := by simpa using h
  unfold conclude finish
  dsimp only
  rw [if_pos some]
  rfl

theorem orFail_kind {α : Type} {x : Except Fault α} {f : Failure} (h : orFail x = .error f) :
    f.kind ≠ .analysis := by
  cases x with
  | ok a => cases h
  | error fault =>
    cases h
    unfold Failure.kind
    dsimp only
    cases fault.group <;> simp

theorem gather_kind {order : List String} {reports : List Report} {f : Failure}
    (h : e.gather order reports = .error f) : f.kind ≠ .analysis := by
  unfold gather at h
  rcases bind_eq_error.mp h with h | ⟨merged, -, h⟩
  · exact orFail_kind h
  · split at h
    · exact orFail_kind h
    · cases h

theorem enforce_kind {d : Crossover.Detector} {ws : List Crossover.Warning} {f : Failure}
    (h : d.enforce ws = .error f) : f.kind ≠ .analysis := by
  unfold Crossover.Detector.enforce at h
  split at h
  · split at h
    · cases h
      simp [Failure.kind]
    · exact orFail_kind (x := (.error _ : Except Fault Unit)) h
  · cases h

theorem conclude_of_unsettled_eq_nil (h : unsettled runs = []) {f : Failure}
    (failed : e.conclude runs = .error f) : f.kind ≠ .analysis := by
  unfold conclude finish at failed
  rw [h] at failed
  rcases bind_eq_error.mp failed with failed | ⟨violations, -, failed⟩
  · exact gather_kind failed
  rcases bind_eq_error.mp failed with failed | ⟨warnings, -, failed⟩
  · exact orFail_kind failed
  rcases bind_eq_error.mp failed with failed | ⟨-, -, failed⟩
  · exact enforce_kind failed
  rcases bind_eq_error.mp failed with failed | ⟨summary, -, failed⟩
  · exact orFail_kind failed
  · cases failed

/-- an analysis is given up for its analyzers just if the run of one of them failed -/
theorem exists_kind_analysis_iff :
    (∃ f, (e.analyze target).1 = .error f ∧ f.kind = .analysis) ↔
      ∃ a ∈ e.analyzers, ∃ f,
        (a.execute e.workspace (target.getD e.settings.targetPath) []).1 = .error f := by
  have every : unsettled (runsByPriority (e.runAll (target.getD e.settings.targetPath))) = [] ↔
      ∀ a ∈ e.analyzers, ∃ report,
        (a.execute e.workspace (target.getD e.settings.targetPath) []).1 = .ok report := by
    rw [unsettled_eq_nil_iff]
    unfold runAll
    simp [mem_runsByPriority]
  unfold analyze
  dsimp only
  constructor
  · rintro ⟨f, failed, kind⟩
    by_contra none
    push Not at none
    refine conclude_of_unsettled_eq_nil (every.mpr fun a ha => ?_) failed kind
    cases ran : (a.execute e.workspace (target.getD e.settings.targetPath) []).1 with
    | ok report => exact ⟨report, rfl⟩
    | error g => exact absurd ran (none a ha g)
  · rintro ⟨a, ha, g, ran⟩
    refine ⟨_, conclude_of_unsettled_ne_nil fun nil => ?_, rfl⟩
    obtain ⟨report, settled⟩ := every.mp nil a ha
    rw [ran] at settled
    cases settled

end LintLedger.Engine
