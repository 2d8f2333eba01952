/-!
# Batches

A list cut into batches of one size; only the last may be smaller.
-/

namespace LintLedger

/-- a list cut into batches of `size` items, `fuel` bounding their number -/
def batchesUpTo {α : Type} (size : Nat) : Nat → List α → List (List α)
  | 0, _ => []
  | fuel + 1, items =>
    if items.isEmpty then [] else items.take size :: batchesUpTo size fuel (items.drop size)

/-- a list cut into batches of a positive size -/
def batches {α : Type} (size : Nat) (items : List α) : List (List α) :=
  batchesUpTo size items.length items

/-- the batches together are the list -/
theorem flatten_batchesUpTo {α : Type} {size : Nat} (positive : 0 < size) (fuel : Nat)
    (items : List α) (enough : items.length ≤ fuel) :
    (batchesUpTo size fuel items).flatten = items := by
  induction fuel generalizing items with
  | zero => simp_all [batchesUpTo]
  | succ fuel ih =>
    cases items with
    | nil => simp [batchesUpTo]
    | cons a rest =>
      have shorter : ((a :: rest).drop size).length ≤ fuel := by
        simp only [List.length_drop, List.length_cons] at *
        omega
      simp [batchesUpTo, ih _ shorter]

end LintLedger
