/-!
# Lists without repetition

The first of each group of items that share a key, and how often each key occurs.
-/

namespace LintLedger

/-- the items of a list whose key has not come before -/
def distinctBy {α κ : Type} [DecidableEq κ] (key : α → κ) : List α → List α
  | [] => []
  | a :: rest => a :: (distinctBy key rest).filter fun b => key b ≠ key a

/-- the items of a list that have not come before -/
def distinct {α : Type} [DecidableEq α] (items : List α) : List α := distinctBy id items

/-- the first item of each key with the number of items that share it -/
def tallyBy {α κ : Type} [DecidableEq κ] (key : α → κ) (items : List α) : List (α × Nat) :=
  (distinctBy key items).map fun a => (a, items.countP fun b => key b = key a)

/-- nothing is added and nothing changes its place -/
theorem distinctBy_sublist {α κ : Type} [DecidableEq κ] (key : α → κ) (items : List α) :
    (distinctBy key items).Sublist items := by
  induction items with
  | nil => simp [distinctBy]
  | cons a rest ih =>
    simp only [distinctBy]
    exact List.Sublist.cons_cons a (List.filter_sublist.trans ih)

/-- each key that occurs is kept -/
theorem exists_mem_distinctBy {α κ : Type} [DecidableEq κ] {key : α → κ} {items : List α} {a : α}
    (h : a ∈ items) : ∃ b ∈ distinctBy key items, key b = key a := by
  induction items with
  | nil => simp at h
  | cons c rest ih =>
    simp only [distinctBy]
    rcases List.mem_cons.mp h with rfl | later
    · exact ⟨a, by simp, rfl⟩
    · obtain ⟨b, hb, same⟩ := ih later
      by_cases hc : key b = key c
      · exact ⟨c, by simp, by rw [← hc, same]⟩
      · exact ⟨b, by simp [hb, hc], same⟩

/-- no key is kept twice -/
theorem pairwise_distinctBy {α κ : Type} [DecidableEq κ] (key : α → κ) (items : List α) :
    (distinctBy key items).Pairwise fun a b => key a ≠ key b := by
  induction items with
  | nil => simp [distinctBy]
  | cons a rest ih =>
    simp only [distinctBy, List.pairwise_cons]
    refine ⟨?_, ih.filter _⟩
    intro b hb
    simp only [List.mem_filter, decide_eq_true_eq, ne_eq] at hb
    exact fun same => hb.2 same.symm

/-- a list in which no key comes twice is kept whole -/
theorem distinctBy_eq_self {α κ : Type} [DecidableEq κ] {key : α → κ} {items : List α}
    (apart : (items.map key).Nodup) : distinctBy key items = items := by
  induction items with
  | nil => rfl
  | cons a rest ih =>
    rw [List.map_cons, List.nodup_cons] at apart
    have others : ∀ b ∈ rest, decide (key b ≠ key a) = true := fun b hb =>
      decide_eq_true fun same => apart.1 (same ▸ List.mem_map_of_mem hb)
    rw [distinctBy, ih apart.2, List.filter_eq_self.mpr others]

end LintLedger
