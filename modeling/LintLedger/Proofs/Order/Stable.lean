import Mathlib

/-!
# Rows put in order

A comparison puts a row in order whatever it says of three items together: what comes out follows every
relation that is transitive and agrees with the comparison where it decides (`pairwise_mergeSort_of`).
If the comparison orders all items, whatever stood between the items of a row stands between those that are
tied once it is put in order (`pairwise_mergeSort_stable`).  Of a comparison that orders the items of a row (`Orders`), tied items keep their order
(`Orders.filter_mergeSort`), and a row in order is determined by its items and the order of those that are
tied (`eq_of_ties`).  So two rows that agree on these are put in the same order
(`Orders.mergeSort_eq_of_perm`), and it does not matter whether items are dropped before or after
(`Orders.mergeSort_filter`).  The first of some items in the ordered row is the earliest of the least of them
(`Orders.exists_first`).  Where the comparison goes by keys of which no two items share one, nothing is tied
(`pairwise_key_mergeSort`).
-/

namespace LintLedger.Order

variable {α : Type} {le : α → α → Bool} {R : α → α → Prop} {l l' : List α}

/-! ### Relations that a comparison agrees with -/

theorem pairwise_merge_of (trans : ∀ a b c, R a b → R b c → R a c)
    (yes : ∀ a b, le a b = true → R a b) (no : ∀ a b, le a b = false → R b a) :
    ∀ {xs ys : List α}, xs.Pairwise R → ys.Pairwise R → (xs.merge ys le).Pairwise R
  | [], ys, _, hys => by simpa using hys
  | x :: xs, [], hxs, _ => by simpa using hxs
  | x :: xs, y :: ys, hxs, hys => by
    have hx := List.pairwise_cons.mp hxs
    have hy := List.pairwise_cons.mp hys
    rw [List.cons_merge_cons]
    cases first : le x y with
    | true =>
      rw [if_pos rfl, List.pairwise_cons]
      refine ⟨fun z hz => ?_, pairwise_merge_of trans yes no hx.2 hys⟩
      have xy := yes x y first
      rcases List.mem_merge.mp hz with hz | hz
      · exact hx.1 z hz
      · rcases List.mem_cons.mp hz with rfl | hz
        · exact xy
        · exact trans _ _ _ xy (hy.1 z hz)
    | false =>
      rw [if_neg (by simp), List.pairwise_cons]
      refine ⟨fun z hz => ?_, pairwise_merge_of trans yes no hxs hy.2⟩
      have yx := no x y first
      rcases List.mem_merge.mp hz with hz | hz
      · rcases List.mem_cons.mp hz with rfl | hz
        · exact yx
        · exact trans _ _ _ yx (hx.1 z hz)
      · exact hy.1 z hz
  termination_by xs ys => xs.length + ys.length

/-- a row put in order follows every transitive relation that the comparison agrees with -/
theorem pairwise_mergeSort_of (trans : ∀ a b c, R a b → R b c → R a c)
    (yes : ∀ a b, le a b = true → R a b) (no : ∀ a b, le a b = false → R b a) :
    ∀ l : List α, (l.mergeSort le).Pairwise R
  | [] => by simp
  | [a] => by simp
  | a :: b :: l => by
    have first := pairwise_mergeSort_of trans yes no ((a :: b :: l).take (((a :: b :: l).length + 1) / 2))
    have second := pairwise_mergeSort_of trans yes no ((a :: b :: l).drop (((a :: b :: l).length + 1) / 2))
    rw [List.mergeSort]
    simp only [List.MergeSort.Internal.splitInTwo_fst, List.MergeSort.Internal.splitInTwo_snd]
    exact pairwise_merge_of trans yes no first second
  termination_by l => l.length
  decreasing_by
    · simp only [List.length_take, List.length_cons]
      omega
    · simp only [List.length_drop, List.length_cons]
      omega

/-! ### Tied items -/

/-- whether a comparison sees no difference between two items -/
def tied (le : α → α → Bool) (a b : α) : Bool := le a b && le b a

/-- rows in order with the same items are the same if they agree on those that are tied -/
theorem eq_of_ties {l₁ l₂ : List α} (perm : l₁.Perm l₂) (refl : ∀ a ∈ l₁, le a a = true)
    (h₁ : l₁.Pairwise fun a b => le a b = true) (h₂ : l₂.Pairwise fun a b => le a b = true)
    (ties : ∀ a ∈ l₁, l₁.filter (tied le a) = l₂.filter (tied le a)) : l₁ = l₂ := by
  induction l₁ generalizing l₂ with
  | nil => exact (List.nil_perm.mp perm).symm
  | cons a t₁ ih =>
    cases l₂ with
    | nil => exact absurd (List.perm_nil.mp perm) (List.cons_ne_nil a t₁)
    | cons b t₂ =>
      have self : tied le a a = true := by
        have := refl a List.mem_cons_self
        simp [tied, this]
      -- each of the two stands in front of the row in which the other is
      have both : tied le a b = true := by
        rcases List.mem_cons.mp (perm.mem_iff.mp List.mem_cons_self) with rfl | later
        · exact self
        rcases List.mem_cons.mp (perm.mem_iff.mpr List.mem_cons_self) with rfl | later'
        · exact self
        have ab : le a b = true := (List.pairwise_cons.mp h₁).1 b later'
        have ba : le b a = true := (List.pairwise_cons.mp h₂).1 a later
        simp [tied, ab, ba]
      have heads := ties a List.mem_cons_self
      rw [List.filter_cons_of_pos self, List.filter_cons_of_pos both] at heads
      obtain rfl := (List.cons.inj heads).1
      refine congrArg (a :: ·) (ih (List.perm_cons a |>.mp perm)
        (fun c hc => refl c (List.mem_cons_of_mem a hc)) (List.pairwise_cons.mp h₁).2
        (List.pairwise_cons.mp h₂).2 fun c hc => ?_)
      have same := ties c (List.mem_cons_of_mem a hc)
      rw [List.filter_cons, List.filter_cons] at same
      split at same
      · exact (List.cons.inj same).2
      · exact same

/-- whether a comparison orders the items of a row -/
structure Orders (le : α → α → Bool) (l : List α) : Prop where
  trans : ∀ a ∈ l, ∀ b ∈ l, ∀ c ∈ l, le a b = true → le b c = true → le a c = true
  total : ∀ a ∈ l, ∀ b ∈ l, le a b = true ∨ le b a = true

/-- a comparison that orders all items of a type keeps tied items in their order -/
theorem filter_mergeSort_of_total (le : α → α → Bool)
    (trans : ∀ a b c, le a b = true → le b c = true → le a c = true)
    (total : ∀ a b, (le a b || le b a) = true) (a : α) (l : List α) :
    (l.mergeSort le).filter (tied le a) = l.filter (tied le a) := by
  have among : (l.filter (tied le a)).Pairwise fun b c => le b c = true := by
    refine List.pairwise_iff_forall_sublist.mpr fun {b c} both => ?_
    have hb : tied le a b = true := (List.mem_filter.mp (both.subset (by simp))).2
    have hc : tied le a c = true := (List.mem_filter.mp (both.subset (by simp))).2
    simp only [tied, Bool.and_eq_true] at hb hc
    exact trans b a c hb.2 hc.1
  have within := (List.sublist_mergeSort trans total among List.filter_sublist).filter (tied le a)
  rw [List.filter_filter] at within
  simp only [Bool.and_self] at within
  exact (within.eq_of_length ((List.mergeSort_perm l le).filter _).length_eq.symm).symm

/-- a row is put in order by a comparison first, and tied items as they stood -/
theorem pairwise_mergeSort_stable (trans : ∀ a b c, le a b = true → le b c = true → le a c = true)
    (total : ∀ a b, (le a b || le b a) = true) (before : l.Pairwise R) :
    (l.mergeSort le).Pairwise fun a b => le a b = true ∧ (le b a = true → R a b) := by
  refine List.pairwise_iff_forall_sublist.mpr fun {a b} both => ?_
  have ab : le a b = true :=
    List.pairwise_iff_forall_sublist.mp (List.pairwise_mergeSort trans total l) both
  refine ⟨ab, fun ba => ?_⟩
  have self : tied le a a = true := by
    have := total a a
    simp_all [tied]
  have other : tied le a b = true := by simp [tied, ab, ba]
  have among := both.filter (tied le a)
  rw [filter_mergeSort_of_total le trans total, List.filter_cons_of_pos self, List.filter_cons_of_pos other,
    List.filter_nil] at among
  exact List.pairwise_iff_forall_sublist.mp before (among.trans List.filter_sublist)

/-- a row is put in strict order by keys of which no two items share one -/
theorem pairwise_key_mergeSort {κ : Type} [LinearOrder κ] {key : α → κ}
    (compares : ∀ a b, le a b = true ↔ key a ≤ key b) (apart : (l.map key).Nodup) :
    (l.mergeSort le).Pairwise fun a b => key a < key b := by
  have sorted : (l.mergeSort le).Pairwise fun a b => le a b = true := by
    refine List.pairwise_mergeSort (fun a b c => ?_) (fun a b => ?_) l
    · rw [compares, compares, compares]
      exact le_trans
    · rw [Bool.or_eq_true, compares, compares]
      exact le_total _ _
  have distinct : (l.mergeSort le).Pairwise fun a b => key a ≠ key b :=
    List.pairwise_map.mp (((List.mergeSort_perm l le).map key).nodup_iff.mpr apart)
  exact (sorted.and distinct).imp fun {a b} both => lt_of_le_of_ne ((compares a b).mp both.1) both.2

/-- the items of a row, each known to be one of them, are put in order as the row is -/
theorem map_val_mergeSort (le : α → α → Bool) (l : List α) :
    (l.attach.mergeSort fun a b => le a.1 b.1).map Subtype.val = l.mergeSort le := by
  rw [List.map_mergeSort (s := le) fun a _ b _ => rfl, List.attach_map_subtype_val]

namespace Orders

theorem refl (h : Orders le l) {a : α} (ha : a ∈ l) : le a a = true :=
  (h.total a ha a ha).elim id id

theorem of_subset (h : Orders le l) (sub : ∀ a ∈ l', a ∈ l) : Orders le l' where
  trans a ha b hb c hc := h.trans a (sub a ha) b (sub b hb) c (sub c hc)
  total a ha b hb := h.total a (sub a ha) b (sub b hb)

theorem pairwise_mergeSort (h : Orders le l) : (l.mergeSort le).Pairwise fun a b => le a b = true := by
  rw [← map_val_mergeSort, List.pairwise_map]
  have trans : ∀ a b c : {a // a ∈ l}, le a.1 b.1 = true → le b.1 c.1 = true → le a.1 c.1 = true :=
    fun a b c => h.trans a a.2 b b.2 c c.2
  have total : ∀ a b : {a // a ∈ l}, (le a.1 b.1 || le b.1 a.1) = true := by
    intro a b
    rcases h.total a a.2 b b.2 with ab | ba
    · rw [ab, Bool.true_or]
    · rw [ba, Bool.or_true]
  exact List.pairwise_mergeSort trans total l.attach

/-- tied items keep their order -/
theorem filter_mergeSort (h : Orders le l) {a : α} (ha : a ∈ l) :
    (l.mergeSort le).filter (tied le a) = l.filter (tied le a) := by
  have sorted := filter_mergeSort_of_total (fun a b : {a // a ∈ l} => le a.1 b.1)
    (fun a b c => h.trans a a.2 b b.2 c c.2)
    (fun a b => by rcases h.total a a.2 b b.2 with ab | ba <;> simp [*]) ⟨a, ha⟩ l.attach
  have both := congrArg (List.map Subtype.val) sorted
  have mapped : ∀ items : List {a // a ∈ l},
      (items.filter (tied (fun a b : {a // a ∈ l} => le a.1 b.1) ⟨a, ha⟩)).map Subtype.val =
        (items.map Subtype.val).filter (tied le a) := by
    intro items
    rw [List.filter_map]
    rfl
  rwa [mapped, mapped, map_val_mergeSort, List.attach_map_subtype_val] at both

/-- the first of some items of a row put in order is the least of them, and of those that are tied with it the
one that came first -/
theorem exists_first (h : Orders le l) {p : α → Bool} {a : α}
    (first : ((l.mergeSort le).filter p).head? = some a) :
    ∃ i : ℕ, l[i]? = some a ∧ p a = true ∧ (∀ b ∈ l, p b = true → le a b = true) ∧
      ∀ j < i, ∀ b, l[j]? = some b → p b = true → le b a = false := by
  obtain ⟨rest, parts⟩ := List.head?_eq_some_iff.mp first
  have own : a ∈ (l.mergeSort le).filter p := by
    rw [parts]
    exact List.mem_cons_self
  have mem : a ∈ l := List.mem_mergeSort.mp (List.mem_of_mem_filter own)
  have least : ∀ b ∈ l, p b = true → le a b = true := by
    intro b hb chosen
    have sorted := h.pairwise_mergeSort.filter p
    have among : b ∈ a :: rest := by
      rw [← parts]
      exact List.mem_filter.mpr ⟨List.mem_mergeSort.mpr hb, chosen⟩
    rw [parts] at sorted
    rcases List.mem_cons.mp among with rfl | later
    · exact h.refl mem
    · exact (List.pairwise_cons.mp sorted).1 b later
  have self : tied le a a = true := by simp [tied, h.refl mem]
  -- among the chosen items that are tied with it, it came first before the row was put in order
  have found : (l.filter fun b => p b && tied le a b).head? = some a := by
    rw [← List.filter_filter, ← h.filter_mergeSort mem, List.filter_comm, parts, List.filter_cons_of_pos self]
    rfl
  rw [List.head?_filter] at found
  obtain ⟨chosen, i, within, place, earlier⟩ := List.find?_eq_some_iff_getElem.mp found
  rw [Bool.and_eq_true] at chosen
  refine ⟨i, List.getElem?_eq_some_iff.mpr ⟨within, place⟩, chosen.1, least, ?_⟩
  intro j before b hb also
  obtain ⟨inside, rfl⟩ := List.getElem?_eq_some_iff.mp hb
  have other := earlier j before
  simpa [also, tied, least _ (List.getElem_mem inside) also] using other

/-- rows that agree on tied items are put in the same order -/
theorem mergeSort_eq_of_perm (h : Orders le l) (perm : l'.Perm l)
    (ties : ∀ a ∈ l, l'.filter (tied le a) = l.filter (tied le a)) : l'.mergeSort le = l.mergeSort le := by
  have h' : Orders le l' := h.of_subset fun a ha => perm.mem_iff.mp ha
  have sorted : (l'.mergeSort le).Perm (l.mergeSort le) :=
    (List.mergeSort_perm l' le).trans (perm.trans (List.mergeSort_perm l le).symm)
  refine eq_of_ties sorted (fun a ha => h'.refl (List.mem_mergeSort.mp ha)) h'.pairwise_mergeSort
    h.pairwise_mergeSort fun a ha => ?_
  have ha' : a ∈ l' := List.mem_mergeSort.mp ha
  have ha := perm.mem_iff.mp ha'
  rw [h'.filter_mergeSort ha', h.filter_mergeSort ha, ties a ha]

/-- items can be dropped before a row is put in order or after -/
theorem mergeSort_filter (h : Orders le l) (p : α → Bool) :
    (l.filter p).mergeSort le = (l.mergeSort le).filter p := by
  have h' : Orders le (l.filter p) := h.of_subset fun a ha => List.mem_of_mem_filter ha
  have sorted : ((l.filter p).mergeSort le).Perm ((l.mergeSort le).filter p) :=
    (List.mergeSort_perm _ le).trans ((List.mergeSort_perm l le).filter p).symm
  refine eq_of_ties sorted (fun a ha => h'.refl (List.mem_mergeSort.mp ha)) h'.pairwise_mergeSort
    (h.pairwise_mergeSort.filter p) fun a ha => ?_
  have ha := List.mem_mergeSort.mp ha
  calc ((l.filter p).mergeSort le).filter (tied le a)
      = (l.filter p).filter (tied le a) := h'.filter_mergeSort ha
    _ = (l.filter (tied le a)).filter p := List.filter_comm ..
    _ = ((l.mergeSort le).filter (tied le a)).filter p := by
      rw [h.filter_mergeSort (List.mem_of_mem_filter ha)]
    _ = ((l.mergeSort le).filter p).filter (tied le a) := List.filter_comm ..

end Orders

end LintLedger.Order
