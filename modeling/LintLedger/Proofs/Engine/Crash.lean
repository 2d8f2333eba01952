import LintLedger.Proofs.Engine.Findings
import LintLedger.Proofs.Findings.Merged
import Mathlib

/-!
# Crashes of analyzers that may fail

An analyzer that may fail and does leaves the analysis as it would be without that analyzer, but for one
line (`crash_adds_one_line`).  Without it the others have other ranks; but they are ranked among each other
as they were (`rankOf_lt_iff_of_removed`), and no more than that goes into the merged findings.
-/

namespace LintLedger

open Outcome

/-! ### Summaries -/

namespace Findings

variable {vs : List Violation} {reports reports' : List Report} {top : Nat} {summary summary' : Summary}

/-- what is told of the runs that failed -/
def errorLines (reports : List Report) : List String :=
  (reports.filter fun r => !r.success).map fun r => r.engine ++ ": " ++ r.failure

theorem errorLines_append (reports reports' : List Report) :
    errorLines (reports ++ reports') = errorLines reports ++ errorLines reports' := by
  unfold errorLines
  rw [List.filter_append, List.map_append]

/-- of the same findings the same is told, but for the runs that failed -/
theorem summarize_unique (h : summarize vs reports top = .ok summary)
    (h' : summarize vs reports' top = .ok summary') :
    summary.errors = errorLines reports ∧ summary' = { summary with errors := errorLines reports' } := by
  obtain ⟨names, hnames, h⟩ := bind_eq_ok.mp h
  obtain ⟨files, hfiles, h⟩ := bind_eq_ok.mp h
  obtain ⟨names', hnames', h'⟩ := bind_eq_ok.mp h'
  obtain ⟨files', hfiles', h'⟩ := bind_eq_ok.mp h'
  obtain rfl := Except.ok.inj (hnames.symm.trans hnames')
  obtain rfl := Except.ok.inj (hfiles.symm.trans hfiles')
  cases h
  cases h'
  exact ⟨rfl, rfl⟩

end Findings

namespace Engine

open Findings

variable {e rest : Engine} {a : Analyzer} {target : Option String} {full less : Analysis}

/-! ### Analyzers by priority -/

/-- the analyzers by priority, before and after one of them has been removed -/
theorem ordered_remove (apart : (e.analyzers.map (·.name)).Nodup) (mem : a ∈ e.analyzers)
    (removed : e.remove? a.name = some rest) :
    (∃ others, rest = { e with analyzers := others }) ∧
      ∃ early late, e.ordered = early ++ a :: late ∧ rest.ordered = early ++ late := by
  unfold remove? at removed
  split at removed
  case isFalse => cases removed
  case isTrue =>
    cases removed
    refine ⟨⟨_, rfl⟩, ?_⟩
    have there : a ∈ e.ordered := List.mem_mergeSort.mpr mem
    obtain ⟨early, late, parts⟩ := List.append_of_mem there
    have distinct := nodup_ordered apart
    rw [parts, List.map_append, List.map_cons] at distinct
    have others := (List.nodup_cons.mp (List.nodup_middle.mp distinct)).1
    rw [← List.map_append] at others
    have kept : ∀ b ∈ early ++ late, (!isNamed a.name b) = true := by
      intro b hb
      have other : b.name ≠ a.name := fun same => others (same ▸ List.mem_map_of_mem hb)
      simpa [isNamed] using other
    have orders : Order.Orders (fun a b : Analyzer => decide (a.settings.priority ≤ b.settings.priority))
        e.analyzers := by
      constructor
      · intro b _ c _ d _ bc cd
        rw [decide_eq_true_eq] at *
        omega
      · intro b _ c _
        rw [decide_eq_true_eq, decide_eq_true_eq]
        omega
    refine ⟨early, late, parts, ?_⟩
    calc byPriority (e.analyzers.filter fun b => !isNamed a.name b)
        = e.ordered.filter fun b => !isNamed a.name b := orders.mergeSort_filter _
      _ = (early ++ late).filter fun b => !isNamed a.name b := by
        rw [parts, List.filter_append, List.filter_append, List.filter_cons_of_neg (by simp [isNamed])]
      _ = early ++ late := List.filter_eq_self.mpr kept

/-! ### Reports -/

theorem settled_append (runs runs' : List Run) : settled (runs ++ runs') = settled runs ++ settled runs' :=
  List.filterMap_append

/-- the reports of some analyzers are those of the first of them, that of one, and those of the others -/
theorem settled_of_execute_eq_ok (early late : List Analyzer) {place : String} {r : Report}
    (told : (a.execute e.workspace place []).1 = .ok r) :
    settled ((early ++ a :: late).map (e.runOf place)) =
      settled (early.map (e.runOf place)) ++ r :: settled (late.map (e.runOf place)) := by
  rw [List.map_append, List.map_cons, settled_append]
  congr 1
  unfold settled runOf
  rw [List.filterMap_cons, told]

/-- a report of success bears the name of one of the analyzers that were run -/
theorem engine_mem_of_settled {analyzers : List Analyzer} {place : String} {r : Report}
    (h : r ∈ settled (analyzers.map (e.runOf place))) : r.engine ∈ analyzers.map (·.name) := by
  obtain ⟨run, hrun, ended⟩ := mem_settled.mp h
  obtain ⟨b, hb, rfl⟩ := List.mem_map.mp hrun
  rw [(Analyzer.execute_eq_ok ended).2.1]
  exact List.mem_map_of_mem hb

/-- what is gathered of reports does not depend on the report of an analyzer that failed, or on its rank -/
theorem gather_unique {early late : List String} {name : String} {before after : List Report} {r : Report}
    {vs ws : List Violation} (apart : (early ++ name :: late).Nodup)
    (named : ∀ q ∈ before ++ after, q.engine ∈ early ++ late) (failed : r.success = false)
    (h : e.gather (early ++ name :: late) (before ++ r :: after) = .ok vs)
    (h' : e.gather (early ++ late) (before ++ after) = .ok ws) : ws = vs := by
  obtain ⟨merged, hmerged, left⟩ := gather_eq_ok h
  obtain ⟨merged', hmerged', left'⟩ := gather_eq_ok h'
  have items : tagged (before ++ after) = tagged (before ++ r :: after) := by
    unfold tagged
    rw [List.filter_append, List.filter_append, List.filter_cons_of_neg (by simp [failed])]
  have ranked : ∀ t ∈ tagged (before ++ r :: after), t.1 ∈ early ++ late := by
    intro t ht
    rw [← items] at ht
    obtain ⟨q, hq, -, engine, -⟩ := mem_tagged.mp ht
    exact engine ▸ named q hq
  obtain rfl : merged' = merged := merge_unique items
    (fun t ht u hu => (rankOf_lt_iff_of_removed apart (ranked t ht) (ranked u hu)).symm) hmerged hmerged'
  split at left
  · rename_i thinned
    rw [if_pos thinned, left] at left'
    exact (Except.ok.inj left').symm
  · rename_i whole
    rw [if_neg whole] at left'
    rw [left, left']

/-! ### The analysis -/

/-- **A crash is invisible to the rest.** If an analyzer that may fail does, the analysis shows the same
findings in the same order as the analysis without that analyzer, and tells the same of them; of the
failures it tells one line more, at the place of the analyzer by priority. -/
theorem crash_adds_one_line (apart : (e.analyzers.map (·.name)).Nodup) (mem : a ∈ e.analyzers)
    (lenient : a.settings.allowFailure = true) {f : Failure} {timedOut : Bool}
    (crash : a.settledRun e.workspace (target.getD e.settings.targetPath) [] = .error (f, timedOut))
    (removed : e.remove? a.name = some rest) (whole : (e.analyze target).1 = .ok full)
    (without : (rest.analyze target).1 = .ok less) :
    less.violations = full.violations ∧
      ∃ early late before after, e.ordered = early ++ a :: late ∧ rest.ordered = early ++ late ∧
        before = errorLines (settled (early.map (e.runOf (target.getD e.settings.targetPath)))) ∧
        after = errorLines (settled (late.map (e.runOf (target.getD e.settings.targetPath)))) ∧
        full.summary.errors = before ++ (a.name ++ ": " ++ f.wording) :: after ∧
        less.summary = { full.summary with errors := before ++ after } := by
  obtain ⟨⟨others, rfl⟩, early, late, parts, parts'⟩ := ordered_remove apart mem removed
  have distinct := nodup_ordered apart
  rw [parts, List.map_append, List.map_cons] at distinct
  rw [analyze_fst, parts] at whole
  rw [analyze_fst, parts'] at without
  change Engine.conclude { e with analyzers := others }
    ((early ++ late).map (e.runOf (target.getD e.settings.targetPath))) = .ok less at without
  set place := target.getD e.settings.targetPath with hplace
  obtain ⟨none_failed, gathered, -, summarized⟩ := finish_eq_ok whole
  obtain ⟨-, gathered', -, summarized'⟩ := finish_eq_ok without
  -- the run of the analyzer has ended with a report, so its target was a proper one
  obtain ⟨report, ended⟩ := unsettled_eq_nil_iff.mp none_failed (e.runOf place a) (by simp)
  have named := (Analyzer.execute_eq_ok ended).1
  obtain ⟨r, told, engine, failed, wording⟩ := Analyzer.execute_of_crash named lenient crash
  have reports := settled_of_execute_eq_ok early late told
  have reports' : settled ((early ++ late).map (e.runOf place)) =
      settled (early.map (e.runOf place)) ++ settled (late.map (e.runOf place)) := by
    rw [List.map_append, settled_append]
  rw [map_name_runOf, reports, List.map_append, List.map_cons] at gathered
  rw [map_name_runOf, reports', List.map_append] at gathered'
  have same : less.violations = full.violations := by
    refine gather_unique distinct (fun q hq => ?_) failed gathered gathered'
    rw [← reports'] at hq
    rw [← List.map_append]
    exact engine_mem_of_settled hq
  rw [same] at summarized'
  obtain ⟨errors, others⟩ := summarize_unique summarized summarized'
  refine ⟨same, early, late, _, _, parts, parts', rfl, rfl, ?_, ?_⟩
  · rw [errors, reports, errorLines_append]
    unfold errorLines
    rw [List.filter_cons_of_pos (by simp [failed]), List.map_cons, engine, wording]
  · rw [others, reports', errorLines_append]

/-! ### An analyzer that fails between two others -/

/-- an analyzer from outside that finds nothing -/
def finder (name : String) : Analyzer := ⟨name, .custom, .default, .outside (.finds []) none⟩

/-- an analyzer from outside that fails -/
def crasher : Analyzer :=
  ⟨"crasher", .custom, .default, .outside (.fails (.foreign .runtime "boom")) none⟩

/-- an engine of some analyzers -/
def bare (analyzers : List Analyzer) : Engine := ⟨{}, ⟨⟨.root, ["p"]⟩, .empty⟩, none, analyzers⟩

theorem crash_adds_one_line_between :
    ∃ full less, ((bare [finder "first", crasher, finder "last"]).analyze none).1 = .ok full ∧
      ((bare [finder "first", finder "last"]).analyze none).1 = .ok less ∧
      less.violations = full.violations ∧ ∃ before after,
        full.summary.errors = before ++ "crasher: boom" :: after ∧
        less.summary.errors = before ++ after := by
  have byPriority : ∀ analyzers : List Analyzer, (∀ a ∈ analyzers, a.settings = .default) →
      (bare analyzers).ordered = analyzers := by
    intro analyzers plain
    refine List.mergeSort_of_pairwise (List.pairwise_of_forall_mem_list fun a ha b hb => ?_)
    rw [plain a ha, plain b hb]
    rfl
  have fullEnds : ((bare [finder "first", crasher, finder "last"]).analyze none).1.isOk = true := by
    rw [analyze_fst, byPriority _ (by simp [finder, crasher])]
    decide +kernel
  have lessEnds : ((bare [finder "first", finder "last"]).analyze none).1.isOk = true := by
    rw [analyze_fst, byPriority _ (by simp [finder])]
    decide +kernel
  obtain ⟨full, whole⟩ := exists_eq_ok.mpr fullEnds
  obtain ⟨less, without⟩ := exists_eq_ok.mpr lessEnds
  have removed : (bare [finder "first", crasher, finder "last"]).remove? crasher.name =
      some (bare [finder "first", finder "last"]) := by
    simp [remove?, bare, isNamed, finder, crasher]
  obtain ⟨same, -, -, before, after, -, -, -, -, errors, others⟩ :=
    crash_adds_one_line (f := .foreign .runtime "boom") (by decide) (by simp [bare]) rfl rfl removed whole
      without
  exact ⟨full, less, whole, without, same, before, after, errors, by rw [others]⟩

end Engine

end LintLedger
