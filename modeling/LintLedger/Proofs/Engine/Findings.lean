import LintLedger.Proofs.Engine.Analysis
import LintLedger.Proofs.Findings.Thinned
import LintLedger.Proofs.Store.Storable
import LintLedger.Proofs.Violation.Classes
import Mathlib

/-!
# What an analysis finds

Whatever analyzers bring, the findings of an analysis that ended well are of the types of their fields
where it matters to the store.  Their rules, messages and advice are texts or absent, because each comes
from a report and a report holds findings in normal form (`execute_isTrimmable`); and their classes are
known, because the summary has counted them by name (`exists_problems_of_classNames`).
-/

namespace LintLedger

open Outcome

/-! ### Findings in normal form -/

theorem Value.stripped_isTrimmable {v w : Value} (h : v.stripped = .ok w) : w.IsTrimmable := by
  cases v with
  | null =>
    cases h
    trivial
  | text s =>
    unfold stripped at h
    rw [← Except.ok.inj h]
    split <;> trivial
  | _ => cases h

theorem Violation.normalize_isTrimmable {source : Source} {v w : Violation}
    (h : v.normalize source = .ok w) : w.IsTrimmable := by
  obtain ⟨rule, hrule, h⟩ := bind_eq_ok.mp h
  obtain ⟨message, hmessage, h⟩ := bind_eq_ok.mp h
  obtain ⟨fix, hfix, h⟩ := bind_eq_ok.mp h
  cases h
  exact ⟨Value.stripped_isTrimmable hrule, Value.stripped_isTrimmable hmessage,
    Value.stripped_isTrimmable hfix⟩

/-- a report holds findings in normal form -/
theorem Analyzer.execute_isTrimmable {w : Workspace} {a : Analyzer} {target : String} {options : Options}
    {r : Report} (h : (a.execute w target options).1 = .ok r) : ∀ v ∈ r.violations, v.IsTrimmable := by
  have named := (execute_eq_ok h).1
  cases run : a.settledRun w target options with
  | ok vs =>
    rw [execute_of_settledRun_eq_ok named run] at h
    obtain ⟨ws, normal, h⟩ := bind_eq_ok.mp h
    cases h
    intro v hv
    obtain ⟨raw, -, one⟩ := exists_of_mem_mapM (orFail_eq_ok.mp normal) hv
    exact Violation.normalize_isTrimmable one
  | error p =>
    obtain ⟨f, timedOut⟩ := p
    rw [execute_of_settledRun_eq_error named run] at h
    unfold failed at h
    split at h
    · cases h
      simp
    · cases h

/-! ### Findings that are counted -/

/-- of a finding whose classes have names, the problems can be told -/
theorem exists_problems_of_classNames {v : Violation} {names : Findings.ClassNames}
    (h : Findings.classNames v = .ok names) : ∃ problems, v.problems = .ok problems := by
  obtain ⟨⟨severity, hseverity⟩, ⟨source, hsource⟩, category, hcategory⟩ :=
    Findings.exists_classNames_eq_ok_iff.mp ⟨names, h⟩
  unfold Violation.problems
  rw [hcategory, hseverity, hsource]
  exact ⟨_, rfl⟩

/-! ### From the reports to the analysis -/

namespace Engine

variable {e : Engine} {target : Option String} {a : Analysis} {order : List String} {reports : List Report}

/-- what is gathered of reports are their merged findings, or the first of each key -/
theorem gather_eq_ok {vs : List Violation} (h : e.gather order reports = .ok vs) :
    ∃ merged, Findings.merge reports order = .ok merged ∧
      if e.settings.deduplication.enabled then
        Findings.deduplicate e.settings.deduplication.strategy merged = .ok vs
      else vs = merged := by
  obtain ⟨merged, hmerged, h⟩ := bind_eq_ok.mp h
  refine ⟨merged, orFail_eq_ok.mp hmerged, ?_⟩
  split
  · rename_i enabled
    rw [if_pos enabled] at h
    exact orFail_eq_ok.mp h
  · rename_i disabled
    rw [if_neg disabled] at h
    exact (Except.ok.inj h).symm

/-- what is gathered of reports comes from those of success -/
theorem mem_of_mem_gather {vs : List Violation} (h : e.gather order reports = .ok vs) {v : Violation}
    (hv : v ∈ vs) : ∃ r ∈ reports, r.success = true ∧ v ∈ r.violations := by
  obtain ⟨merged, hmerged, left⟩ := gather_eq_ok h
  refine (Findings.mem_merge hmerged).mp ?_
  split at left
  · obtain ⟨-, rfl⟩ := Findings.deduplicate_eq_ok_iff.mp left
    exact (distinctBy_sublist _ _).subset hv
  · exact left ▸ hv

/-- what is found in a report of success is gathered, or gives way to a finding with the same key -/
theorem mem_or_exists_of_gather {vs : List Violation} (h : e.gather order reports = .ok vs) {r : Report}
    (hr : r ∈ reports) (success : r.success = true) {v : Violation} (hv : v ∈ r.violations) :
    v ∈ vs ∨ e.settings.deduplication.enabled = true ∧ ∃ u ∈ vs, ∃ key,
      Findings.keyOf e.settings.deduplication.strategy u = .ok key ∧
      Findings.keyOf e.settings.deduplication.strategy v = .ok key := by
  obtain ⟨merged, hmerged, left⟩ := gather_eq_ok h
  have mem : v ∈ merged := (Findings.mem_merge hmerged).mpr ⟨r, hr, success, hv⟩
  split at left
  · rename_i enabled
    obtain ⟨keyed, rfl⟩ := Findings.deduplicate_eq_ok_iff.mp left
    obtain ⟨u, hu, same⟩ : ∃ u ∈ distinctBy (Findings.keyFor e.settings.deduplication.strategy) merged,
        Findings.keyFor e.settings.deduplication.strategy u = Findings.keyFor _ v :=
      exists_mem_distinctBy mem
    refine .inr ⟨enabled, u, hu, _, ?_, Findings.keyOf_eq_ok_iff.mpr ⟨keyed v mem, rfl⟩⟩
    exact Findings.keyOf_eq_ok_iff.mpr ⟨keyed u ((distinctBy_sublist _ _).subset hu), same.symm⟩
  · exact .inl (left ▸ mem)

/-- what an analysis shows has been gathered from its reports and counted -/
theorem finish_eq_ok {failures : List (String × Failure)} (h : e.finish order failures reports = .ok a) :
    failures = [] ∧ e.gather order reports = .ok a.violations ∧ a.reports = reports ∧
      Findings.summarize a.violations reports e.settings.topFiles = .ok a.summary := by
  cases failures with
  | cons f more =>
    have failed : e.finish order (f :: more) reports = .error (.analysis (f :: more) reports) := rfl
    rw [failed] at h
    cases h
  | nil =>
    obtain ⟨violations, gathered, h⟩ := bind_eq_ok.mp h
    obtain ⟨warnings, -, h⟩ := bind_eq_ok.mp h
    obtain ⟨-, -, h⟩ := bind_eq_ok.mp h
    obtain ⟨summary, summarized, h⟩ := bind_eq_ok.mp h
    cases h
    exact ⟨rfl, gathered, rfl, orFail_eq_ok.mp summarized⟩

/-- what an analysis finds has been counted, and comes from one of its reports -/
theorem conclude_eq_ok {runs : List Run} (h : e.conclude runs = .ok a) :
    a.reports = settled runs ∧
      (∀ v ∈ a.violations, ∃ names, Findings.classNames v = .ok names) ∧
      ∀ v ∈ a.violations, ∃ r ∈ a.reports, v ∈ r.violations := by
  obtain ⟨-, gathered, reports, summarized⟩ := finish_eq_ok h
  obtain ⟨names, hnames, -⟩ := bind_eq_ok.mp summarized
  rw [reports]
  refine ⟨rfl, exists_mapM_eq_ok.mp ⟨names, hnames⟩, fun v hv => ?_⟩
  obtain ⟨r, hr, -, hv⟩ := mem_of_mem_gather gathered hv
  exact ⟨r, hr, hv⟩

/-- a report of an analysis is what the run of one of its analyzers ended with -/
theorem exists_execute_of_mem_reports (h : (e.analyze target).1 = .ok a) {r : Report} (hr : r ∈ a.reports) :
    ∃ b ∈ e.analyzers, (b.execute e.workspace (target.getD e.settings.targetPath) []).1 = .ok r := by
  rw [analyze_fst] at h
  rw [(conclude_eq_ok h).1] at hr
  obtain ⟨run, hrun, ended⟩ := mem_settled.mp hr
  obtain ⟨b, hb, rfl⟩ := List.mem_map.mp hrun
  exact ⟨b, List.mem_mergeSort.mp hb, ended⟩

/-- and each of its analyzers has ended with a report of it -/
theorem exists_mem_reports (h : (e.analyze target).1 = .ok a) {b : Analyzer} (hb : b ∈ e.analyzers) :
    ∃ r ∈ a.reports, (b.execute e.workspace (target.getD e.settings.targetPath) []).1 = .ok r := by
  cases ran : (b.execute e.workspace (target.getD e.settings.targetPath) []).1 with
  | error f =>
    obtain ⟨g, failed, -⟩ := exists_kind_analysis_iff.mpr ⟨b, hb, f, ran⟩
    rw [h] at failed
    cases failed
  | ok r =>
    rw [analyze_fst] at h
    rw [(conclude_eq_ok h).1]
    exact ⟨r, mem_settled.mpr ⟨_, List.mem_map_of_mem (List.mem_mergeSort.mpr hb), ran⟩, rfl⟩

/-- its reports are those of its analyzers, by priority -/
theorem forall₂_reports (h : (e.analyze target).1 = .ok a) : List.Forall₂
    (fun b r => (b.execute e.workspace (target.getD e.settings.targetPath) []).1 = .ok r)
    e.ordered a.reports := by
  have settles : ∀ b ∈ e.ordered,
      ∃ r, (b.execute e.workspace (target.getD e.settings.targetPath) []).1 = .ok r := fun b hb =>
    (exists_mem_reports h (List.mem_mergeSort.mp hb)).imp fun _ ran => ran.2
  rw [analyze_fst] at h
  rw [(conclude_eq_ok h).1]
  generalize e.ordered = analyzers at settles
  induction analyzers with
  | nil => exact .nil
  | cons b rest ih =>
    obtain ⟨r, ran⟩ := settles b List.mem_cons_self
    have own : settled ((b :: rest).map (e.runOf (target.getD e.settings.targetPath))) =
        r :: settled (rest.map (e.runOf (target.getD e.settings.targetPath))) := by
      unfold settled
      rw [List.map_cons, List.filterMap_cons_some (b := r) (by unfold runOf; rw [ran])]
    rw [own]
    exact .cons ran (ih fun c hc => settles c (List.mem_cons_of_mem b hc))

/-- the findings of an analysis can be told, fingerprinted and written as far as their types go -/
theorem analyze_eq_ok (h : (e.analyze target).1 = .ok a) :
    ∀ v ∈ a.violations, (∃ problems, v.problems = .ok problems) ∧ v.IsTrimmable := by
  obtain ⟨-, counted, reported⟩ := conclude_eq_ok h
  intro v hv
  obtain ⟨names, hnames⟩ := counted v hv
  refine ⟨exists_problems_of_classNames hnames, ?_⟩
  obtain ⟨r, hr, hv⟩ := reported v hv
  obtain ⟨b, -, ran⟩ := exists_execute_of_mem_reports h hr
  exact Analyzer.execute_isTrimmable ran v hv

end Engine

end LintLedger
