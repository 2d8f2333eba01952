import LintLedger.Batches
import Mathlib

/-!
# Batches and what is in them

Batches of a positive size are the list that they were cut from (`flatten_batches`): a batch is taken off
until nothing is left (`batches_of_ne_nil`).  What has gone into the first few of them is cut into just these
again (`batches_take_flatten`), since all but the last are full.
-/

namespace LintLedger

variable {α : Type} {size n : ℕ} {items : List α} {a : α}

/-! ### What is in batches -/

theorem flatten_batches (sized : 0 < size) : (batches size items).flatten = items :=
  flatten_batchesUpTo sized items.length items (le_refl _)

theorem mem_of_mem_batches (h : a ∈ (batches size items).flatten) : a ∈ items := by
  have every : ∀ (fuel : ℕ) (items : List α), a ∈ (batchesUpTo size fuel items).flatten → a ∈ items := by
    intro fuel
    induction fuel with
    | zero =>
      intro items h
      cases h
    | succ fuel ih =>
      intro items h
      unfold batchesUpTo at h
      split at h
      · cases h
      · rw [List.flatten_cons, List.mem_append] at h
        rcases h with h | h
        · exact List.mem_of_mem_take h
        · exact List.mem_of_mem_drop (ih _ h)
  exact every items.length items h

theorem mem_of_mem_take_batches (h : a ∈ ((batches size items).take n).flatten) : a ∈ items := by
  obtain ⟨batch, hbatch, ha⟩ := List.mem_flatten.mp h
  exact mem_of_mem_batches (List.mem_flatten.mpr ⟨batch, List.mem_of_mem_take hbatch, ha⟩)

/-! ### One batch after another -/

/-- more fuel than there are items makes no difference -/
theorem batchesUpTo_congr (sized : 0 < size) {fuel more : ℕ} (enough : items.length ≤ fuel)
    (enough' : items.length ≤ more) : batchesUpTo size fuel items = batchesUpTo size more items := by
  induction fuel generalizing items more with
  | zero =>
    obtain rfl := List.length_eq_zero_iff.mp (Nat.le_zero.mp enough)
    cases more <;> rfl
  | succ fuel ih =>
    cases more with
    | zero =>
      obtain rfl := List.length_eq_zero_iff.mp (Nat.le_zero.mp enough')
      rfl
    | succ more =>
      cases items with
      | nil => rfl
      | cons a rest =>
        have shorter : ((a :: rest).drop size).length ≤ rest.length := by
          rw [List.length_drop, List.length_cons]
          omega
        rw [List.length_cons] at enough enough'
        unfold batchesUpTo
        rw [ih (shorter.trans (Nat.le_of_succ_le_succ enough)) (shorter.trans (Nat.le_of_succ_le_succ enough'))]

theorem batches_nil : batches size ([] : List α) = [] := rfl

/-- a first batch is taken off, if there is anything at all -/
theorem batches_of_ne_nil (sized : 0 < size) (some : items ≠ []) :
    batches size items = items.take size :: batches size (items.drop size) := by
  obtain ⟨a, rest, rfl⟩ := List.exists_cons_of_ne_nil some
  have shorter : ((a :: rest).drop size).length ≤ rest.length := by
    rw [List.length_drop, List.length_cons]
    omega
  unfold batches
  rw [batchesUpTo_congr sized (le_refl _) shorter]
  rfl

/-- a first batch that is full, and the batches of what comes behind it -/
theorem batches_append (sized : 0 < size) {first rest : List α} (full : first.length = size) :
    batches size (first ++ rest) = first :: batches size rest := by
  have some : first ++ rest ≠ [] := by
    rw [← List.length_pos_iff, List.length_append]
    omega
  rw [batches_of_ne_nil sized some, List.take_left' full, List.drop_left' full]

/-- the first few batches are those of what is in them -/
theorem batches_take_flatten (sized : 0 < size) (n : ℕ) (items : List α) :
    batches size ((batches size items).take n).flatten = (batches size items).take n := by
  induction n generalizing items with
  | zero => rfl
  | succ n ih =>
    by_cases none : items = []
    · rw [none, batches_nil]
      rfl
    · rw [batches_of_ne_nil sized none, List.take_succ_cons, List.flatten_cons]
      by_cases full : size ≤ items.length
      · rw [batches_append sized (List.length_take_of_le full), ih]
      · -- a batch that is not full is the last one
        have last : items.drop size = [] := List.drop_eq_nil_of_le (by omega)
        have whole : items.take size = items := List.take_of_length_le (by omega)
        rw [last, whole, batches_nil, List.take_nil, List.flatten_nil, List.append_nil,
          batches_of_ne_nil sized none, last, whole, batches_nil]

end LintLedger
