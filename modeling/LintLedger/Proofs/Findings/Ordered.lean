import LintLedger.Proofs.Findings.Merged
import LintLedger.Proofs.Order.Comparisons
import LintLedger.Proofs.Value.Comparable
import Mathlib

/-!
# Merged findings whose files and lines can be put in order

Findings whose files and lines can be put in order are merged into one row in which none stands behind one
that its seat lies before (`merge_eq_ok_of_comparable`).  Findings of different analyzers never share a
seat, so it does not matter in which order the reports are given (`exists_merged`), as long as each
analyzer has one report and a rank.
-/

namespace LintLedger.Findings

open Outcome Value

variable {order : List String} {reports reports' : List Report} {t u : String × Violation}

/-! ### Seats in order -/

section Measured

variable {α β : Type} [LinearOrder α] [LinearOrder β] {f : Value → α} {g : Value → β}

/-- what is measured of a seat -/
def position (order : List String) (f : Value → α) (g : Value → β) (t : String × Violation) :
    ℕ ×ₗ ℕ ×ₗ α ×ₗ β :=
  toLex (rankOf order t.1, toLex (weight t.2.severity, toLex (f t.2.file, g t.2.line)))

/-- seats are compared as their positions are -/
theorem before_seat (files : IsMeasuredBy f ((tagged reports).map (·.2.file)))
    (lines : IsMeasuredBy g ((tagged reports).map (·.2.line))) (ht : t ∈ tagged reports)
    (hu : u ∈ tagged reports) :
    Place.before (seat order t).1 (seat order u).1 =
      .ok (decide (position order f g t < position order f g u)) := by
  obtain ⟨sameFile, fileBefore⟩ := files _ (List.mem_map_of_mem ht) _ (List.mem_map_of_mem hu)
  obtain ⟨sameLine, lineBefore⟩ := lines _ (List.mem_map_of_mem ht) _ (List.mem_map_of_mem hu)
  unfold Place.before seat position
  simp only [Prod.Lex.toLex_lt_toLex, sameFile, sameLine]
  by_cases rank : rankOf order t.1 = rankOf order u.1
  · by_cases gravity : weight t.2.severity = weight u.2.severity
    · by_cases file : f t.2.file = f u.2.file
      · by_cases line : g t.2.line = g u.2.line
        · simp [rank, gravity, file, line]
        · simp [rank, gravity, file, line, lineBefore line]
      · simp [rank, gravity, file, fileBefore file]
    · simp [rank, gravity]
  · simp [rank]

theorem mayPrecede_eq (files : IsMeasuredBy f ((tagged reports).map (·.2.file)))
    (lines : IsMeasuredBy g ((tagged reports).map (·.2.line))) (ht : t ∈ tagged reports)
    (hu : u ∈ tagged reports) :
    mayPrecede order t u = decide (position order f g t ≤ position order f g u) := by
  unfold mayPrecede notAfter
  rw [before_seat files lines hu ht]
  simp [← decide_not]

theorem orders_mayPrecede (order : List String) (files : IsMeasuredBy f ((tagged reports).map (·.2.file)))
    (lines : IsMeasuredBy g ((tagged reports).map (·.2.line))) :
    Order.Orders (mayPrecede order) (tagged reports) where
  trans a ha b hb c hc ab bc := by
    rw [mayPrecede_eq files lines ha hb, decide_eq_true_eq] at ab
    rw [mayPrecede_eq files lines hb hc, decide_eq_true_eq] at bc
    rw [mayPrecede_eq files lines ha hc, decide_eq_true_eq]
    exact ab.trans bc
  total a ha b hb := by
    rw [mayPrecede_eq files lines ha hb, mayPrecede_eq files lines hb ha, decide_eq_true_eq,
      decide_eq_true_eq]
    exact le_total _ _

end Measured

/-! ### Reports in any order -/

/-- findings at one seat come from one analyzer -/
theorem engine_eq_of_tied (ranked : ∀ r ∈ reports, r.engine ∈ order) (ht : t ∈ tagged reports)
    (hu : u ∈ tagged reports) (same : Order.tied (mayPrecede order) t u = true) : u.1 = t.1 := by
  have rank : ∀ s ∈ tagged reports, s.1 ∈ order := by
    intro s hs
    obtain ⟨r, hr, -, engine, -⟩ := mem_tagged.mp hs
    exact engine ▸ ranked r hr
  simp only [Order.tied, Bool.and_eq_true] at same
  refine eq_of_rankOf_eq (rank u hu) (rank t ht) ?_
  have forth := ahead_of_mayPrecede same.1
  have back := ahead_of_mayPrecede same.2
  unfold Ahead at forth back
  omega

/-- the findings of one analyzer are those of its reports -/
theorem filter_tagged (reports : List Report) (engine : String) :
    (tagged reports).filter (fun t => t.1 = engine) = tagged (reports.filter fun r => r.engine = engine) := by
  induction reports with
  | nil => rfl
  | cons r rest ih =>
    rw [tagged_cons, List.filter_append, ih]
    by_cases own : r.engine = engine
    · rw [List.filter_cons_of_pos (by simpa using own), tagged_cons]
      congr 1
      split <;> simp [own]
    · rw [List.filter_cons_of_neg (by simpa using own)]
      split <;> simp [own]

/-- the findings of one analyzer are the same in whatever order the reports are given -/
theorem filter_tagged_of_perm (apart : (reports.map (·.engine)).Nodup) (perm : reports'.Perm reports)
    (engine : String) : (tagged reports').filter (fun t => t.1 = engine) =
      (tagged reports).filter fun t => t.1 = engine := by
  rw [filter_tagged, filter_tagged]
  have own := perm.filter fun r => decide (r.engine = engine)
  have one : (reports.filter fun r => r.engine = engine).length ≤ 1 := by
    rw [← List.countP_eq_length_filter]
    have once := List.nodup_iff_count_le_one.mp apart engine
    rwa [List.count, List.countP_map] at once
  match h : reports.filter fun r => r.engine = engine with
  | [] =>
    rw [h] at own
    rw [List.perm_nil.mp own, h]
  | [r] =>
    rw [h] at own
    rw [List.perm_singleton.mp own, h]
  | _ :: _ :: _ =>
    rw [h] at one
    simp at one

theorem tagged_perm (perm : reports'.Perm reports) : (tagged reports').Perm (tagged reports) :=
  (perm.filter _).flatMap_right _

/-- findings are put into the same row in whatever order the reports are given -/
theorem mergeSort_tagged_of_perm (apart : (reports.map (·.engine)).Nodup)
    (ranked : ∀ r ∈ reports, r.engine ∈ order)
    (files : IsComparable ((tagged reports).map (·.2.file)))
    (lines : IsComparable ((tagged reports).map (·.2.line))) (perm : reports'.Perm reports) :
    (tagged reports').mergeSort (mayPrecede order) = (tagged reports).mergeSort (mayPrecede order) := by
  obtain ⟨α, _, f, files⟩ := files
  obtain ⟨β, _, g, lines⟩ := lines
  have items := tagged_perm perm
  refine (orders_mayPrecede order files lines).mergeSort_eq_of_perm items fun t ht => ?_
  -- what is tied with a finding is among those of its analyzer
  have within : ∀ l : List (String × Violation), (∀ u ∈ l, u ∈ tagged reports) →
      l.filter (Order.tied (mayPrecede order) t) =
        (l.filter fun u => u.1 = t.1).filter (Order.tied (mayPrecede order) t) := by
    intro l sub
    rw [List.filter_filter]
    refine List.filter_congr fun u hu => ?_
    cases same : Order.tied (mayPrecede order) t u with
    | false => rfl
    | true => simpa using engine_eq_of_tied ranked ht (sub u hu) same
  rw [within _ fun u hu => items.mem_iff.mp hu, within _ fun u hu => hu, filter_tagged_of_perm apart perm]

/-- findings whose files and lines can be put in order are merged into the row of their seats -/
theorem merge_eq_ok_of_comparable (placeable : ∀ t ∈ tagged reports, IsPlaceable t.2)
    (files : IsComparable ((tagged reports).map (·.2.file)))
    (lines : IsComparable ((tagged reports).map (·.2.line))) :
    merge reports order = .ok (((tagged reports).mergeSort (mayPrecede order)).map Prod.snd) ∧
      ((tagged reports).mergeSort (mayPrecede order)).Pairwise fun t u =>
        Place.before (seat order u).1 (seat order t).1 = .ok false := by
  obtain ⟨α, _, f, files⟩ := files
  obtain ⟨β, _, g, lines⟩ := lines
  refine ⟨merge_eq_ok_iff.mpr ⟨placeable, Order.firstFailure?_eq_none ?_, rfl⟩, ?_⟩
  · intro a ha b hb
    obtain ⟨t, ht, rfl⟩ := List.mem_map.mp ha
    obtain ⟨u, hu, rfl⟩ := List.mem_map.mp hb
    exact ⟨_, before_seat files lines ht hu⟩
  · have sorted := (orders_mayPrecede order files lines).pairwise_mergeSort
    refine sorted.imp_of_mem fun {t u} ht hu le => ?_
    rw [List.mem_mergeSort] at ht hu
    rw [mayPrecede_eq files lines ht hu, decide_eq_true_eq] at le
    rw [before_seat files lines hu ht]
    simpa using le

/-- the findings of reports that each come from an analyzer of their own are merged into one row by their
seats, in whatever order the reports are given; or not at all, if one of them cannot be given a place -/
theorem exists_merged (apart : (reports.map (·.engine)).Nodup) (ranked : ∀ r ∈ reports, r.engine ∈ order)
    (files : IsComparable ((tagged reports).map (·.2.file)))
    (lines : IsComparable ((tagged reports).map (·.2.line))) :
    ((∀ t ∈ tagged reports, IsPlaceable t.2) →
      ∃ items : List (String × Violation), items.Perm (tagged reports) ∧
        (items.Pairwise fun t u => Place.before (seat order u).1 (seat order t).1 = .ok false) ∧
        ∀ reports', reports'.Perm reports → merge reports' order = .ok (items.map Prod.snd)) ∧
    ((∃ t ∈ tagged reports, ¬IsPlaceable t.2) →
      ∀ reports', reports'.Perm reports → ∃ fault, merge reports' order = .error fault) := by
  constructor
  · intro placeable
    refine ⟨(tagged reports).mergeSort (mayPrecede order), List.mergeSort_perm _ _,
      (merge_eq_ok_of_comparable placeable files lines).2, fun reports' perm => ?_⟩
    have items := tagged_perm perm
    have sub : ∀ t ∈ tagged reports', t ∈ tagged reports := fun t ht => items.mem_iff.mp ht
    rw [← mergeSort_tagged_of_perm apart ranked files lines perm]
    refine (merge_eq_ok_of_comparable (fun t ht => placeable t (sub t ht)) ?_ ?_).1
    · exact files.of_subset fun v hv => (items.map _).mem_iff.mp hv
    · exact lines.of_subset fun v hv => (items.map _).mem_iff.mp hv
  · rintro ⟨t, ht, unplaceable⟩ reports' perm
    cases merged : merge reports' order with
    | error fault => exact ⟨fault, rfl⟩
    | ok vs => exact absurd ((merge_eq_ok_iff.mp merged).1 t ((tagged_perm perm).mem_iff.mpr ht)) unplaceable

end LintLedger.Findings
