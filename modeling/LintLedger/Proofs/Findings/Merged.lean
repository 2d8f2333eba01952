import LintLedger.Findings.Merge
import LintLedger.Proofs.Order.Stable
import LintLedger.Proofs.Outcome
import Mathlib

/-!
# Merged findings

The findings of an analysis each have a seat: the rank of their analyzer, the weight of their severity,
their file and their line (`seat`).  Merged, they stand by their seats (`merge_eq_ok_iff`).  Files and
lines may be anything, and some of them have no order among each other; but rank and weight always have,
and the merged findings go by these whatever the files and lines are (`pairwise_ahead`).
-/

namespace LintLedger.Findings

open Outcome

variable {order : List String} {reports : List Report} {vs : List Violation} {t u : String × Violation}

/-! ### The findings that are merged -/

/-- the findings that are merged are those of the reports of success -/
theorem mem_tagged {t : String × Violation} :
    t ∈ tagged reports ↔ ∃ r ∈ reports, r.success = true ∧ t.1 = r.engine ∧ t.2 ∈ r.violations := by
  unfold tagged
  simp only [List.mem_flatMap, List.mem_filter, List.mem_map]
  constructor
  · rintro ⟨r, ⟨hr, success⟩, v, hv, rfl⟩
    exact ⟨r, hr, success, rfl, hv⟩
  · rintro ⟨r, hr, success, engine, hv⟩
    exact ⟨r, ⟨hr, success⟩, t.2, hv, by rw [← engine]⟩

theorem tagged_cons (r : Report) (rest : List Report) :
    tagged (r :: rest) =
      (if r.success then r.violations.map fun v => (r.engine, v) else []) ++ tagged rest := by
  unfold tagged
  rw [List.filter_cons]
  split
  · rw [List.flatMap_cons]
  · rw [List.nil_append]

/-! ### Ranks -/

/-- an analyzer of the order stands at its rank -/
theorem getElem?_rankOf {n : String} (h : n ∈ order) : order[rankOf order n]? = some n := by
  obtain ⟨i, hi⟩ : ∃ i, order.reverse.idxOf? n = some i := by
    rw [← Option.isSome_iff_exists, List.isSome_idxOf?]
    exact List.mem_reverse.mpr h
  obtain ⟨inside, here, -⟩ := List.idxOf?_eq_some_iff.mp hi
  rw [List.length_reverse] at inside
  unfold rankOf
  rw [hi]
  dsimp only
  rw [← List.getElem?_reverse inside, List.getElem?_eq_getElem (by simpa using inside), here]

/-- analyzers of the order have different ranks -/
theorem eq_of_rankOf_eq {n m : String} (hn : n ∈ order) (hm : m ∈ order)
    (same : rankOf order n = rankOf order m) : n = m := by
  have left := getElem?_rankOf hn
  rw [same, getElem?_rankOf hm] at left
  exact (Option.some.inj left).symm

/-- in an order without repetition the rank of an analyzer is its place -/
theorem rankOf_eq_idxOf {n : String} (apart : order.Nodup) (h : n ∈ order) :
    rankOf order n = order.idxOf n := by
  have inside : rankOf order n < order.length := (List.getElem?_eq_some_iff.mp (getElem?_rankOf h)).1
  refine (List.getElem?_inj inside apart).mp ?_
  rw [getElem?_rankOf h, List.getElem?_idxOf h]

/-! ### Seats -/

/-- the weight of a severity in the merged order -/
def weight : Label Severity → Nat
  | .known s => s.rank
  | .raw _ => 99

/-- whether a finding can be given a place: its severity is known, or could be a key -/
def IsPlaceable (v : Violation) : Prop := ∃ n, severityRank v.severity = .ok n

/-- the seat of a finding, given with the name of its analyzer -/
def seat (order : List String) (t : String × Violation) : Placed :=
  (⟨rankOf order t.1, weight t.2.severity, t.2.file, t.2.line⟩, t.2)

/-- whether a finding may be seated in front of another -/
def mayPrecede (order : List String) (t u : String × Violation) : Bool :=
  notAfter (seat order t) (seat order u)

theorem eq_weight_of_severityRank {l : Label Severity} {n : Nat} (h : severityRank l = .ok n) :
    n = weight l := by
  cases l with
  | known s => exact (Except.ok.inj h).symm
  | raw v =>
    obtain ⟨key, -, rfl⟩ := map_eq_ok.mp h
    rfl

/-- the placing of one finding, as it is merged -/
theorem placing_eq_ok_iff {item : Placed} :
    (do let place ← placeOf order t.1 t.2; return (place, t.2) : Except Fault Placed) = .ok item ↔
      IsPlaceable t.2 ∧ item = seat order t := by
  unfold placeOf IsPlaceable seat
  cases ranked : severityRank t.2.severity with
  | error f => simp [Except.map, bind, Except.bind]
  | ok n =>
    obtain rfl := eq_weight_of_severityRank ranked
    simp [Except.map, bind, Except.bind, pure, Except.pure, eq_comm]

/-- findings are merged just if each can be given a place and their places can be compared as far as it
takes, and then they stand by their seats -/
theorem merge_eq_ok_iff :
    merge reports order = .ok vs ↔
      (∀ t ∈ tagged reports, IsPlaceable t.2) ∧
      Order.firstFailure? (fun a b : Placed => Place.before a.1 b.1)
        ((tagged reports).map (seat order)) = none ∧
      vs = ((tagged reports).mergeSort (mayPrecede order)).map Prod.snd := by
  have sorted : ((((tagged reports).map (seat order)).mergeSort notAfter).map Prod.snd) =
      ((tagged reports).mergeSort (mayPrecede order)).map Prod.snd := by
    rw [← List.map_mergeSort (r := mayPrecede order) (f := seat order) fun t _ u _ => rfl, List.map_map]
    rfl
  unfold merge
  rw [bind_eq_ok]
  simp only [mapM_eq_ok_map fun t item => placing_eq_ok_iff]
  unfold sortPlaced
  constructor
  · rintro ⟨placed, ⟨placeable, rfl⟩, h⟩
    split at h
    · cases h
    · rename_i comparable
      exact ⟨placeable, comparable, by rw [← sorted, Except.ok.inj h]⟩
  · rintro ⟨placeable, comparable, rfl⟩
    exact ⟨_, ⟨placeable, rfl⟩, by rw [comparable, sorted]⟩

/-- merged findings are those of the reports of success -/
theorem mem_merge (h : merge reports order = .ok vs) {v : Violation} :
    v ∈ vs ↔ ∃ r ∈ reports, r.success = true ∧ v ∈ r.violations := by
  obtain ⟨-, -, rfl⟩ := merge_eq_ok_iff.mp h
  simp only [List.mem_map, List.mem_mergeSort, mem_tagged]
  constructor
  · rintro ⟨t, ⟨r, hr, success, -, hv⟩, rfl⟩
    exact ⟨r, hr, success, hv⟩
  · rintro ⟨r, hr, success, hv⟩
    exact ⟨(r.engine, v), ⟨r, hr, success, rfl, hv⟩, rfl⟩

/-! ### Orders that agree -/

/-- without one of its analyzers an order ranks the others among each other as it did -/
theorem rankOf_lt_iff_of_removed {early late : List String} {a n m : String}
    (apart : (early ++ a :: late).Nodup) (hn : n ∈ early ++ late) (hm : m ∈ early ++ late) :
    rankOf (early ++ a :: late) n < rankOf (early ++ a :: late) m ↔
      rankOf (early ++ late) n < rankOf (early ++ late) m := by
  have more : ∀ k ∈ early ++ late, k ∈ early ++ a :: late ∧ a ≠ k ∧
      (k ∈ early → early.idxOf k < early.length) := by
    intro k hk
    refine ⟨?_, fun same => (List.nodup_cons.mp (List.nodup_middle.mp apart)).1 (same ▸ hk),
      List.idxOf_lt_length_of_mem⟩
    simp only [List.mem_append, List.mem_cons] at hk ⊢
    tauto
  have apart' : (early ++ late).Nodup := (List.nodup_cons.mp (List.nodup_middle.mp apart)).2
  obtain ⟨hn', an, boundn⟩ := more n hn
  obtain ⟨hm', am, boundm⟩ := more m hm
  rw [rankOf_eq_idxOf apart hn', rankOf_eq_idxOf apart hm', rankOf_eq_idxOf apart' hn,
    rankOf_eq_idxOf apart' hm]
  simp only [List.idxOf_append, List.idxOf_cons_ne late an, List.idxOf_cons_ne late am]
  by_cases front : n ∈ early
  · by_cases back : m ∈ early
    · simp [front, back]
    · have := boundn front
      simp only [front, back, if_true, if_false]
      omega
  · by_cases back : m ∈ early
    · have := boundm back
      simp only [front, back, if_true, if_false]
      omega
    · simp only [front, back, if_false]
      omega

/-- orders that rank the analyzers of findings alike merge the findings alike -/
theorem merge_unique {order' : List String} {reports' : List Report} {ws : List Violation}
    (items : tagged reports' = tagged reports)
    (ranks : ∀ t ∈ tagged reports, ∀ u ∈ tagged reports,
      (rankOf order' t.1 < rankOf order' u.1 ↔ rankOf order t.1 < rankOf order u.1))
    (h : merge reports order = .ok vs) (h' : merge reports' order' = .ok ws) : ws = vs := by
  obtain ⟨-, -, rfl⟩ := merge_eq_ok_iff.mp h
  obtain ⟨-, -, rfl⟩ := merge_eq_ok_iff.mp h'
  have alike : ∀ t ∈ tagged reports, ∀ u ∈ tagged reports,
      mayPrecede order' t u = mayPrecede order t u := by
    intro t ht u hu
    have forth := ranks t ht u hu
    have back := ranks u hu t ht
    have apart : rankOf order' u.1 ≠ rankOf order' t.1 ↔ rankOf order u.1 ≠ rankOf order t.1 := by omega
    unfold mayPrecede notAfter Place.before seat
    simp only [apart, back]
  rw [items]
  have sorted := List.map_mergeSort (f := id) alike
  rw [List.map_id, List.map_id] at sorted
  rw [sorted]

/-! ### Rank and weight -/

/-- whether a finding comes before another by rank and weight, or no later -/
def Ahead (order : List String) (t u : String × Violation) : Prop :=
  rankOf order t.1 < rankOf order u.1 ∨
    rankOf order t.1 = rankOf order u.1 ∧ weight t.2.severity ≤ weight u.2.severity

theorem Ahead.trans {a b c : String × Violation} (h : Ahead order a b) (g : Ahead order b c) :
    Ahead order a c := by
  unfold Ahead at *
  omega

/-- findings of equal rank and weight are ahead of each other, the others as their seats compare -/
theorem before_cases (order : List String) (t u : String × Violation) :
    (Ahead order t u ∧ Ahead order u t) ∨
      (Ahead order t u ∧ Place.before (seat order t).1 (seat order u).1 = .ok true) ∨
      (Ahead order u t ∧ Place.before (seat order t).1 (seat order u).1 = .ok false) := by
  unfold Place.before seat Ahead
  dsimp only
  by_cases rank : rankOf order t.1 = rankOf order u.1
  · by_cases gravity : weight t.2.severity = weight u.2.severity
    · exact .inl ⟨.inr (by omega), .inr (by omega)⟩
    · rw [if_neg (not_not.mpr rank), if_pos gravity]
      by_cases less : weight t.2.severity < weight u.2.severity
      · exact .inr (.inl ⟨.inr (by omega), by simp [less]⟩)
      · exact .inr (.inr ⟨.inr (by omega), by simp [less]⟩)
  · rw [if_pos rank]
    by_cases less : rankOf order t.1 < rankOf order u.1
    · exact .inr (.inl ⟨.inl less, by simp [less]⟩)
    · exact .inr (.inr ⟨.inl (by omega), by simp [less]⟩)

theorem ahead_of_mayPrecede (h : mayPrecede order t u = true) : Ahead order t u := by
  unfold mayPrecede notAfter at h
  rcases before_cases order u t with ⟨-, ahead⟩ | ⟨-, first⟩ | ⟨ahead, -⟩
  · exact ahead
  · rw [first] at h
    cases h
  · exact ahead

theorem ahead_of_not_mayPrecede (h : mayPrecede order t u = false) : Ahead order u t := by
  unfold mayPrecede notAfter at h
  rcases before_cases order u t with ⟨ahead, -⟩ | ⟨ahead, -⟩ | ⟨-, last⟩
  · exact ahead
  · exact ahead
  · rw [last] at h
    cases h

/-- merged findings go by rank and weight, whatever their files and lines are -/
theorem pairwise_ahead : ((tagged reports).mergeSort (mayPrecede order)).Pairwise (Ahead order) :=
  Order.pairwise_mergeSort_of (R := Ahead order) (fun _ _ _ => Ahead.trans)
    (fun _ _ => ahead_of_mayPrecede) (fun _ _ => ahead_of_not_mayPrecede) _

end LintLedger.Findings
