import LintLedger.Proofs.Distinct
import LintLedger.Proofs.Order.Stable
import LintLedger.Proofs.Store.Changes
import LintLedger.Proofs.Store.Upsert
import Mathlib

/-!
# Deltas

The change from some fingerprints to others puts each of them in one of three lists, in one only
(`mem_between`, `nodup_entries`).  What a check leaves in the history are these lists, one row for each
fingerprint and all under the number of the check (`check_of_mem_historyOf`, `map_historyOf`).
-/

namespace LintLedger

/-! ### New numbers -/

namespace Store

/-- the greatest number so far does not become less -/
theorem le_foldl_max {α : Type} (id : α → Int) (rows : List α) (n : Int) :
    n ≤ rows.foldl (fun n r => max n (id r)) n := by
  induction rows generalizing n with
  | nil => exact le_refl n
  | cons a rest ih => exact (le_max_left n (id a)).trans (ih _)

theorem lt_nextId {α : Type} (id : α → Int) {rows : List α} {r : α} (h : r ∈ rows) :
    id r < nextId id rows := by
  have below : ∀ (rows : List α) (n : Int), r ∈ rows → id r ≤ rows.foldl (fun n r => max n (id r)) n := by
    intro rows
    induction rows with
    | nil => intro n h; cases h
    | cons a rest ih =>
      intro n h
      rcases List.mem_cons.mp h with rfl | later
      · exact (le_max_right n (id r)).trans (le_foldl_max id rest _)
      · exact ih _ later
  unfold nextId
  have := below rows 0 h
  omega

section Numbered

variable {α β : Type} {id : β → Int} {rows : List β} {make : Int → α → β} {items : List α}

/-- a new number is greater than every one there is -/
theorem lt_of_mem_numbered (own : ∀ n a, id (make n a) = n) {b c : β} (hb : b ∈ rows)
    (hc : c ∈ numbered id rows make items) : id b < id c := by
  obtain ⟨i, hi, rfl⟩ := List.mem_mapIdx.mp hc
  have := lt_nextId id hb
  rw [own]
  omega

/-- new numbers go up one by one -/
theorem pairwise_numbered (own : ∀ n a, id (make n a) = n) :
    (numbered id rows make items).Pairwise fun b c => id b < id c := by
  unfold numbered
  refine List.pairwise_iff_getElem.mpr fun i j hi hj before => ?_
  rw [List.getElem_mapIdx, List.getElem_mapIdx, own, own]
  omega

end Numbered

/-! ### Active fingerprints -/

theorem mem_activeFingerprints {rows : List ViolationRow} {f : String} :
    f ∈ activeFingerprints rows ↔ f ∈ printsOf (rows.filter (·.isActive)) := by
  unfold activeFingerprints
  exact List.mem_mergeSort

theorem nodup_activeFingerprints {rows : List ViolationRow} (h : (printsOf rows).Nodup) :
    (activeFingerprints rows).Nodup := by
  unfold activeFingerprints
  rw [(List.mergeSort_perm _ _).nodup_iff]
  exact nodup_printsOf_filter _ h

/-- the active fingerprints come in increasing order -/
theorem pairwise_activeFingerprints {rows : List ViolationRow} (h : (printsOf rows).Nodup) :
    (activeFingerprints rows).Pairwise (· < ·) := by
  have ordered (f g : String) : (!decide (g < f)) = true ↔ f ≤ g := by
    rw [Bool.not_eq_true', decide_eq_false_iff_not, String.not_lt]
  refine Order.pairwise_key_mergeSort ordered ?_
  rw [List.map_id']
  exact nodup_printsOf_filter _ h

end Store

/-! ### The three lists -/

namespace Delta

variable {previous current : List String} {f : String}

theorem mem_between :
    (f ∈ (between previous current).added ↔ f ∈ current ∧ f ∉ previous) ∧
    (f ∈ (between previous current).removed ↔ f ∈ previous ∧ f ∉ current) ∧
    (f ∈ (between previous current).unchanged ↔ f ∈ current ∧ f ∈ previous) := by
  simp [between]

theorem map_entries (d : Delta) : d.entries.map Prod.snd = d.added ++ d.removed ++ d.unchanged := by
  simp [entries, Function.comp_def]

theorem mem_entries {d : Delta} {action : DeltaAction} :
    (action, f) ∈ d.entries ↔ match action with
      | .added => f ∈ d.added
      | .removed => f ∈ d.removed
      | .unchanged => f ∈ d.unchanged := by
  cases action <;> simp [entries]

/-- no fingerprint is in two of the lists, or twice in one -/
theorem nodup_entries (hprevious : previous.Nodup) (hcurrent : current.Nodup) :
    ((between previous current).entries.map Prod.snd).Nodup := by
  rw [map_entries, List.nodup_append', List.nodup_append']
  refine ⟨⟨hcurrent.filter _, hprevious.filter _, fun f added removed => ?_⟩, hcurrent.filter _,
    fun f moved stayed => ?_⟩
  · exact (mem_between.2.1.mp removed).2 (mem_between.1.mp added).1
  · obtain ⟨now, before⟩ := mem_between.2.2.mp stayed
    rcases List.mem_append.mp moved with added | removed
    · exact (mem_between.1.mp added).2 before
    · exact (mem_between.2.1.mp removed).2 now

end Delta

/-! ### The history of a check -/

namespace Store

variable {now : Instant} {check : Int} {history : List HistoryRow} {d : Delta}

theorem check_of_mem_historyOf {h : HistoryRow} (mem : h ∈ historyOf now check history d) :
    h.check = check := by
  unfold historyOf numbered at mem
  obtain ⟨i, hi, rfl⟩ := List.mem_mapIdx.mp mem
  rfl

theorem recordedAt_of_mem_historyOf {h : HistoryRow} (mem : h ∈ historyOf now check history d) :
    h.recordedAt = now := by
  unfold historyOf numbered at mem
  obtain ⟨i, hi, rfl⟩ := List.mem_mapIdx.mp mem
  rfl

/-- a check leaves one row for each fingerprint, with what it says of it -/
theorem map_historyOf :
    (historyOf now check history d).map (fun h => (h.action, h.fingerprint)) = d.entries := by
  unfold historyOf numbered
  refine List.ext_getElem? fun i => ?_
  rw [List.getElem?_map, List.getElem?_mapIdx, Option.map_map]
  exact congrFun Option.map_id _

theorem countColumn?_int {action : StoreAction} {i : Int} {n : Option Int}
    (h : countColumn? action (.int i) = .ok n) : n = some i := by
  obtain ⟨j, hj, rfl⟩ := Outcome.map_eq_ok.mp h
  unfold wholeColumn at hj
  split at hj
  · cases hj
    rfl
  · cases hj

theorem countColumn_int {action : StoreAction} {i n : Int}
    (h : countColumn action (.int i) = .ok n) : n = i := by
  obtain ⟨m, hm, h⟩ := Outcome.bind_eq_ok.mp h
  obtain rfl := countColumn?_int hm
  cases h
  rfl

end Store

end LintLedger
