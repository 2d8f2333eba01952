import LintLedger.Findings.Deduplicate
import LintLedger.Proofs.Distinct
import LintLedger.Proofs.Findings.Merged
import Mathlib

/-!
# What is left of merged findings

Thinning out keeps the first finding of each key (`deduplicate_eq_ok_iff`).  Of merged findings that is one
of the analyzer with the lowest rank among those that reported the key, and of its findings one of the
gravest.  So a finding of the gravest severity is left of a key just if that analyzer reported one
(`exists_error_iff`): what an analyzer behind it reported is lost, however grave it is.
-/

namespace LintLedger.Findings

open Outcome

variable {strategy : Strategy} {order : List String} {reports : List Report} {vs ws : List Violation}

/-- the key by which a finding counts as the same; empty if it has none -/
def keyFor (strategy : Strategy) (v : Violation) : List Key := (keyOf strategy v).toOption.getD []

theorem keyOf_eq_ok_iff {v : Violation} {key : List Key} :
    keyOf strategy v = .ok key ↔ (∃ key, keyOf strategy v = .ok key) ∧ key = keyFor strategy v := by
  unfold keyFor
  cases keyOf strategy v with
  | error f => simp
  | ok k => simp [Except.toOption, eq_comm]

/-- findings are thinned out just if each of them has a key, and then the first of each key is kept -/
theorem deduplicate_eq_ok_iff :
    deduplicate strategy vs = .ok ws ↔
      (∀ v ∈ vs, ∃ key, keyOf strategy v = .ok key) ∧ ws = distinctBy (keyFor strategy) vs := by
  have alike (keys : ∀ v ∈ vs, ∃ key, keyOf strategy v = .ok key) :
      distinctBy (fun v => (keyOf strategy v).toOption) vs = distinctBy (keyFor strategy) vs := by
    refine distinctBy_congr fun v hv w hw => ?_
    obtain ⟨k, hk⟩ := keys v hv
    obtain ⟨l, hl⟩ := keys w hw
    simp [keyFor, hk, hl, Except.toOption]
  unfold deduplicate
  rw [keyed_eq_ok_iff]
  exact and_congr_right fun keys => by rw [alike keys]

theorem weight_eq_zero_iff {l : Label Severity} : weight l = 0 ↔ l = .known .error := by
  cases l with
  | known s => cases s <;> simp [weight, Severity.rank]
  | raw v => simp [weight]

/-- a finding of the gravest severity is left just if an analyzer reported one with a key that no analyzer
of lower rank reported -/
theorem exists_error_iff {κ : Type} [DecidableEq κ] (key : Violation → κ) :
    (∃ v ∈ distinctBy key (((tagged reports).mergeSort (mayPrecede order)).map Prod.snd),
        v.severity = .known .error) ↔
      ∃ t ∈ tagged reports, t.2.severity = .known .error ∧
        ∀ u ∈ tagged reports, rankOf order u.1 < rankOf order t.1 → key u.2 ≠ key t.2 := by
  rw [distinctBy_map]
  set merged := (tagged reports).mergeSort (mayPrecede order) with hmerged
  have ahead : merged.Pairwise (Ahead order) := pairwise_ahead
  -- the first of a key is ahead of all others that have it
  have first : ∀ s ∈ distinctBy (fun t => key t.2) merged, ∀ u ∈ merged, key u.2 = key s.2 →
      u = s ∨ Ahead order s u := by
    intro s hs u hu same
    obtain ⟨rest, hrest⟩ := List.head?_eq_some_iff.mp (mem_distinctBy.mp hs)
    have among : u ∈ s :: rest := by
      rw [← hrest]
      exact List.mem_filter.mpr ⟨hu, by simpa using same⟩
    rcases List.mem_cons.mp among with rfl | later
    · exact .inl rfl
    · have sorted := ahead.filter fun b => decide (key b.2 = key s.2)
      rw [hrest] at sorted
      exact .inr ((List.pairwise_cons.mp sorted).1 u later)
  constructor
  · rintro ⟨v, hv, grave⟩
    obtain ⟨s, hs, rfl⟩ := List.mem_map.mp hv
    refine ⟨s, List.mem_mergeSort.mp ((distinctBy_sublist _ _).subset hs), grave, ?_⟩
    intro u hu less same
    rcases first s hs u (List.mem_mergeSort.mpr hu) same with rfl | h
    · omega
    · rcases h with h | ⟨h, -⟩ <;> omega
  · rintro ⟨t, ht, grave, led⟩
    have ht : t ∈ merged := List.mem_mergeSort.mpr ht
    obtain ⟨s, hs, same⟩ : ∃ s ∈ distinctBy (fun t => key t.2) merged, key s.2 = key t.2 :=
      exists_mem_distinctBy ht
    refine ⟨s.2, List.mem_map_of_mem hs, ?_⟩
    rcases first s hs t ht same.symm with rfl | h | ⟨-, lighter⟩
    · exact grave
    · exact absurd same (led s (List.mem_mergeSort.mp ((distinctBy_sublist _ _).subset hs)) h)
    · rw [weight_eq_zero_iff.mpr grave] at lighter
      exact weight_eq_zero_iff.mp (Nat.le_zero.mp lighter)

end LintLedger.Findings
