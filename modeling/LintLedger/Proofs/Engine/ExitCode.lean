import LintLedger.Proofs.Engine.Findings
import LintLedger.Proofs.Findings.Thinned
import Mathlib

/-!
# The exit code of an analysis

An analysis ends with exit code one just if a finding of the gravest severity is left of its batch
(`exitCode_eq_one_iff`).  That is so for every such finding that no analyzer of earlier priority
anticipated (`exit_code_of_led`).  One that was anticipated is absorbed, by whichever strategy the batch
is thinned out: an earlier analyzer that only warns of the same place turns the exit code to zero
(`absorbed_error`).
-/

namespace LintLedger

open Outcome

/-! ### Counting the gravest -/

namespace Findings

variable {vs : List Violation} {reports : List Report} {top : Nat} {summary : Summary}

/-- the gravest severity is counted just if a finding has it -/
theorem countOf_error_pos_iff (h : summarize vs reports top = .ok summary) :
    0 < countOf summary.bySeverity Severity.error.name ↔ ∃ v ∈ vs, v.severity = .known .error := by
  obtain ⟨names, hnames, h⟩ := bind_eq_ok.mp h
  obtain ⟨files, -, h⟩ := bind_eq_ok.mp h
  cases h
  have counted : countOf (countSeverities (names.map (·.severity))) Severity.error.name =
      (names.map (·.severity)).count Severity.error.name := by
    simp [countOf, countSeverities, Severity.all]
  have grave : ∀ v : Violation, v.severity.isClass .error = true ↔ v.severity = .known .error := by
    intro v
    cases v.severity <;> simp [Label.isClass]
  dsimp only
  rw [counted, isNaming_severity.count hnames, List.countP_pos_iff]
  simp only [grave]

end Findings

/-! ### From the reports to the exit code -/

namespace Engine

open Findings

variable {e : Engine} {order : List String} {reports : List Report} {a : Analysis}

theorem exitCode_eq_one_iff {failures : List (String × Failure)}
    (h : e.finish order failures reports = .ok a) :
    a.exitCode = 1 ↔ ∃ v ∈ a.violations, v.severity = .known .error := by
  rw [← countOf_error_pos_iff (finish_eq_ok h).2.2.2]
  simp [Analysis.exitCode, Analysis.hasErrors]

/-- in what is left of merged findings there is one of the gravest severity just if one of them is led by no
other of its key -/
theorem exists_error_of_deduplicate {strategy : Strategy} {merged left : List Violation}
    (hmerged : merge reports order = .ok merged) (hleft : deduplicate strategy merged = .ok left) :
    (∃ v ∈ left, v.severity = .known .error) ↔
      ∃ r ∈ reports, r.success = true ∧ ∃ v ∈ r.violations, v.severity = .known .error ∧
        ∀ q ∈ reports, q.success = true → rankOf order q.engine < rankOf order r.engine →
          ∀ w ∈ q.violations, keyOf strategy w ≠ keyOf strategy v := by
  obtain ⟨-, -, sorted⟩ := merge_eq_ok_iff.mp hmerged
  obtain ⟨known, kept⟩ := deduplicate_eq_ok_iff.mp hleft
  -- a merged finding has a key, so keys are the same just if what stands for them is
  have keyed : ∀ t ∈ tagged reports, keyOf strategy t.2 = .ok (keyFor strategy t.2) := by
    intro t ht
    have merged : t.2 ∈ merged := by
      rw [sorted]
      exact List.mem_map_of_mem (List.mem_mergeSort.mpr ht)
    exact keyOf_eq_ok_iff.mpr ⟨known t.2 merged, rfl⟩
  rw [kept, sorted, exists_error_iff]
  constructor
  · rintro ⟨t, ht, grave, led⟩
    obtain ⟨r, hr, success, engine, hv⟩ := mem_tagged.mp ht
    refine ⟨r, hr, success, t.2, hv, grave, ?_⟩
    intro q hq ended earlier w hw same
    have hu : (q.engine, w) ∈ tagged reports := mem_tagged.mpr ⟨q, hq, ended, rfl, hw⟩
    refine led (q.engine, w) hu (engine ▸ earlier) ?_
    rw [keyed _ ht] at same
    exact Except.ok.inj ((keyed _ hu).symm.trans same)
  · rintro ⟨r, hr, success, v, hv, grave, led⟩
    have ht : (r.engine, v) ∈ tagged reports := mem_tagged.mpr ⟨r, hr, success, rfl, hv⟩
    refine ⟨(r.engine, v), ht, grave, ?_⟩
    intro u hu earlier same
    obtain ⟨q, hq, ended, engine, hw⟩ := mem_tagged.mp hu
    refine led q hq ended (engine ▸ earlier) u.2 hw ?_
    rw [keyed _ hu, same]
    exact (keyed _ ht).symm

/-- among merged findings there is one of the gravest severity just if it was reported -/
theorem exists_error_of_merge {merged : List Violation} (hmerged : merge reports order = .ok merged) :
    (∃ v ∈ merged, v.severity = .known .error) ↔
      ∃ r ∈ reports, r.success = true ∧ ∃ v ∈ r.violations, v.severity = .known .error := by
  obtain ⟨-, -, rfl⟩ := merge_eq_ok_iff.mp hmerged
  constructor
  · rintro ⟨v, hv, grave⟩
    obtain ⟨t, ht, rfl⟩ := List.mem_map.mp hv
    obtain ⟨r, hr, success, -, hv⟩ := mem_tagged.mp (List.mem_mergeSort.mp ht)
    exact ⟨r, hr, success, t.2, hv, grave⟩
  · rintro ⟨r, hr, success, v, hv, grave⟩
    have ht : (r.engine, v) ∈ tagged reports := mem_tagged.mpr ⟨r, hr, success, rfl, hv⟩
    exact ⟨v, List.mem_map_of_mem (List.mem_mergeSort.mpr ht), grave⟩

/-- **The exit code is that of the findings that lead.** Whatever some analyzers reported, by whichever
order of priority and whichever strategy it is thinned out, the analysis has exit code one just if one of
the reports of success holds a finding of the gravest severity whose key is that of no finding in a report
of success by an analyzer of earlier priority.  Nothing is asked of the keys if nothing is thinned out. -/
theorem exit_code_of_led {failures : List (String × Failure)}
    (done : e.finish order failures reports = .ok a) :
    a.exitCode = 1 ↔
      ∃ r ∈ reports, r.success = true ∧ ∃ v ∈ r.violations, v.severity = .known .error ∧
        (e.settings.deduplication.enabled = true →
          ∀ q ∈ reports, q.success = true → rankOf order q.engine < rankOf order r.engine →
            ∀ w ∈ q.violations, keyOf e.settings.deduplication.strategy w ≠
              keyOf e.settings.deduplication.strategy v) := by
  obtain ⟨-, gathered, -, -⟩ := finish_eq_ok done
  obtain ⟨merged, hmerged, left⟩ := gather_eq_ok gathered
  rw [exitCode_eq_one_iff done]
  split at left
  case isTrue thinned => simpa [thinned] using exists_error_of_deduplicate hmerged left
  case isFalse whole => simpa [whole, left] using exists_error_of_merge hmerged

/-! ### Two analyzers that report one place -/

/-- a finding that differs from others of its kind in its severity only -/
def remark (severity : Severity) : Violation :=
  ⟨.text "a.ts", .int 1, .text "x", .known .style, .known severity, .known .custom, .null, .null, .null,
    .null⟩

/-- two analyzers, the first of which has priority, that each report one finding -/
def pair (first second : Severity) : Engine :=
  ⟨{}, ⟨⟨.root, ["p"]⟩, .empty⟩, none, [
    ⟨"first", .custom, .default, .outside (.finds [remark first]) none⟩,
    ⟨"second", .custom, .default, .outside (.finds [remark second]) none⟩]⟩

/-- the reports of two such analyzers -/
def reportsOf (first second : Severity) : List Report :=
  [⟨"first", [remark first], .zero, true, none, .none⟩,
    ⟨"second", [remark second], .zero, true, none, .none⟩]

/-- their findings stand by priority, whichever of them is graver -/
theorem merge_reportsOf (first second : Severity) :
    merge (reportsOf first second) ["first", "second"] = .ok [remark first, remark second] := by
  have front : mayPrecede ["first", "second"] ("first", remark first) ("second", remark second) = true := by
    cases first <;> cases second <;> decide +kernel
  refine merge_eq_ok_iff.mpr ⟨?_, ?_, ?_⟩
  · intro t ht
    obtain rfl | rfl : t = ("first", remark first) ∨ t = ("second", remark second) := by
      simpa [tagged, reportsOf] using ht
    · exact ⟨first.rank, rfl⟩
    · exact ⟨second.rank, rfl⟩
  · cases first <;> cases second <;> decide +kernel
  · simp [tagged, reportsOf, List.mergeSort, front]

theorem finish_pair_isOk (first second : Severity) :
    ((pair first second).finish ["first", "second"] [] (reportsOf first second)).isOk = true := by
  unfold finish gather
  rw [merge_reportsOf]
  cases first <;> cases second <;> decide +kernel

/-- a warning that is anticipated by the gravest severity changes nothing -/
theorem exit_code_of_led_first :
    ∃ a, (pair .error .warn).finish ["first", "second"] [] (reportsOf .error .warn) = .ok a ∧
      a.exitCode = 1 := by
  obtain ⟨a, done⟩ := exists_eq_ok.mpr (finish_pair_isOk .error .warn)
  refine ⟨a, done, (exit_code_of_led done).mpr ⟨_, List.mem_cons_self, rfl, remark .error,
    List.mem_cons_self, rfl, fun _ q _ _ earlier => ?_⟩⟩
  have front : rankOf ["first", "second"] "first" = 0 := by decide
  exact absurd (front ▸ earlier) (Nat.not_lt_zero _)

/-- an analysis with exit code zero although an analyzer that ended well reported the gravest severity -/
theorem absorbed_error :
    ∃ a, (pair .warn .error).finish ["first", "second"] [] (reportsOf .warn .error) = .ok a ∧
      (∃ r ∈ a.reports, r.success = true ∧ ∃ v ∈ r.violations, v.severity = .known .error) ∧
      a.exitCode = 0 := by
  obtain ⟨a, done⟩ := exists_eq_ok.mpr (finish_pair_isOk .warn .error)
  obtain ⟨-, gathered, reports, -⟩ := finish_eq_ok done
  refine ⟨a, done, ?_, ?_⟩
  · rw [reports]
    exact ⟨_, List.mem_cons_of_mem _ List.mem_cons_self, rfl, remark .error, List.mem_cons_self, rfl⟩
  · have left : a.violations = [remark .warn] := by
      unfold gather at gathered
      rw [merge_reportsOf] at gathered
      exact (Except.ok.inj gathered).symm
    have none_grave : ¬a.exitCode = 1 := by
      rw [exitCode_eq_one_iff done, left]
      rintro ⟨v, hv, grave⟩
      obtain rfl := List.mem_singleton.mp hv
      cases grave
    unfold Analysis.exitCode at none_grave ⊢
    split at none_grave
    · exact absurd rfl none_grave
    · rename_i clear
      rw [if_neg clear]

end Engine

end LintLedger
