import LintLedger.Proofs.Store.Changes
import LintLedger.Proofs.Store.Delta
import LintLedger.Proofs.Store.Storable
import Mathlib

/-!
# Checks and their numbers

A check is found again by its number.  Beginning another check leaves it as it is, since that one has a
number of its own (`Holds.startCheck`), and so does ending another (`Holds.changeCheck`).  What can be
written of any check can be written of one whose number fits, unless the table is lost
(`changeCheck_kind`).
-/

namespace LintLedger.Store

open Outcome

/-! ### New numbers -/

section Numbers

variable {α : Type} {id : α → Int} {rows rows' : List α} {row : α}

theorem nextId_congr (same : rows'.map id = rows.map id) : nextId id rows' = nextId id rows := by
  have fold : ∀ rows : List α, rows.foldl (fun n r => max n (id r)) 0 = (rows.map id).foldl max 0 :=
    fun rows => (List.foldl_map ..).symm
  unfold nextId
  rw [fold, fold, same]

theorem nextId_snoc (new : id row = nextId id rows) : nextId id (rows ++ [row]) = nextId id rows + 1 := by
  unfold nextId at new ⊢
  rw [List.foldl_append, List.foldl_cons, List.foldl_nil, new]
  omega

theorem one_le_nextId : 1 ≤ nextId id rows := by
  have := le_foldl_max id rows 0
  unfold nextId
  omega

end Numbers

/-- below a number that fits, every number that is not negative fits -/
theorem fits_of_le {i j : Int} (h : fits j) (low : 0 ≤ i) (high : i ≤ j) : fits i := by
  unfold fits at h ⊢
  simp only [Bool.and_eq_true, decide_eq_true_eq] at h ⊢
  omega

/-! ### What becomes of a check -/

/-- the checks of a number -/
def checksOf (s : Store) (id : Int) : List CheckRow := (s.checks.getD []).filter (·.id = id)

variable {s t : Store} {now : Instant} {action : StoreAction} {check : Int} {f : Failure}
  {change : CheckRow → Except Failure CheckRow}

/-- a change of the checks of one number is made to all of them and to no others -/
theorem changeCheck_checksOf (same : ∀ r r', change r = .ok r' → r'.id = r.id)
    (h : changeCheck action check change s = .ok t) :
    (s.checksOf check).mapM change = .ok (t.checksOf check) ∧
      (∀ id, id ≠ check → t.checksOf id = s.checksOf id) ∧
      ∃ rows rows', s.checks = some rows ∧ t.checks = some rows' ∧
        rows'.map CheckRow.id = rows.map CheckRow.id := by
  obtain ⟨rows, needed, h⟩ := bind_eq_ok.mp h
  obtain ⟨number, whole, h⟩ := bind_eq_ok.mp h
  obtain ⟨rows', changed, h⟩ := bind_eq_ok.mp h
  cases h
  have known := need_eq_ok.mp needed
  obtain rfl : number = check := by
    unfold wholeColumn at whole
    split at whole <;> cases whole
    rfl
  have kept : ∀ r r', (if r.id = number then change r else .ok r) = .ok r' → r'.id = r.id := by
    intro r r' one
    split at one
    · exact same r r' one
    · cases one
      rfl
  have each : ∀ id, ((rows.filter (·.id = id)).mapM fun r => if r.id = number then change r else .ok r) =
      .ok (rows'.filter (·.id = id)) := by
    intro id
    exact filter_of_mapM (fun r r' one => by rw [kept r r' one]) changed
  unfold checksOf
  rw [known]
  refine ⟨?_, fun id other => ?_, rows, rows', rfl, rfl, map_of_mapM kept changed⟩
  · refine (mapM_congr fun r hr => (if_pos ?_).symm).trans (each number)
    exact of_decide_eq_true (List.mem_filter.mp hr).2
  · have left : (rows.filter (·.id = id)).mapM (fun r => if r.id = number then change r else .ok r) =
        .ok (rows.filter (·.id = id)) := by
      rw [← mapM_ok (rows.filter (·.id = id))]
      refine mapM_congr fun r hr => if_neg fun own => other ?_
      rw [← own]
      exact (of_decide_eq_true (List.mem_filter.mp hr).2).symm
    exact Except.ok.inj ((each id).symm.trans left)

/-- a change that can be made to every check fails only with the table, if the number fits -/
theorem changeCheck_kind (whole : fits check) (total : ∀ r, ∃ r', change r = .ok r')
    (h : changeCheck action check change s = .error f) : f.kind = .storage ∧ s.checks = none := by
  cases known : s.checks with
  | none =>
    have lost : changeCheck action check change s = .error (.store action) := by
      unfold changeCheck
      rw [known]
      rfl
    rw [lost] at h
    cases h
    exact ⟨rfl, rfl⟩
  | some rows =>
    obtain ⟨rows', changed⟩ : ∃ rows', rows.mapM (fun r => if r.id = check then change r else .ok r) =
        .ok rows' := by
      refine exists_mapM_eq_ok.mpr fun r _ => ?_
      split
      · exact total r
      · exact ⟨r, rfl⟩
    have done : changeCheck action check change s = .ok { s with checks := some rows' } := by
      unfold changeCheck wholeColumn
      rw [known, if_pos whole]
      dsimp only [need, bind, Except.bind]
      rw [changed]
      rfl
    rw [done] at h
    cases h

/-! ### Checks that have been begun -/

/-- whether the check of a number is a given one, while there are numbers left for some more -/
structure Holds (row : CheckRow) (more : Nat) (s : Store) : Prop where
  own : s.checksOf row.id = [row]
  numbered : 0 ≤ row.id
  room : ∀ rows, s.checks = some rows → fits (nextId CheckRow.id rows - 1 + more)

variable {row : CheckRow} {more : Nat}

theorem Holds.exists_mem (h : Holds row more s) : ∃ rows, s.checks = some rows ∧ row ∈ rows := by
  have own := h.own
  unfold checksOf at own
  cases known : s.checks with
  | none => simp [known] at own
  | some rows =>
    rw [known] at own
    have mem : row ∈ rows.filter (·.id = row.id) := by
      rw [show rows.filter (·.id = row.id) = [row] from own]
      exact List.mem_singleton_self row
    exact ⟨rows, rfl, List.mem_of_mem_filter mem⟩

theorem Holds.fits (h : Holds row more s) : Store.fits row.id := by
  obtain ⟨rows, known, hrow⟩ := h.exists_mem
  have below := lt_nextId CheckRow.id hrow
  exact fits_of_le (h.room rows known) h.numbered (by omega)

theorem Holds.congr (h : Holds row more s) (same : t.checks = s.checks) : Holds row more t := by
  refine ⟨?_, h.numbered, fun rows known => h.room rows (same ▸ known)⟩
  have own := h.own
  unfold checksOf at own ⊢
  rw [same, own]

theorem Holds.less (h : Holds row (more + 1) s) : Holds row more s := by
  refine ⟨h.own, h.numbered, fun rows known => ?_⟩
  have : 1 ≤ nextId CheckRow.id rows := one_le_nextId
  exact fits_of_le (h.room rows known) (by omega) (by push_cast; omega)

/-- a check that begins has another number, which fits as well -/
theorem Holds.startCheck {rule engine : Value} {id : Int} (h : Holds row (more + 1) s)
    (begun : startCheck now rule engine s = .ok (id, t)) :
    Holds row more t ∧ id ≠ row.id ∧ Store.fits id := by
  obtain ⟨rows, new, known, number, same, rfl⟩ := startCheck_eq_ok begun
  obtain ⟨rows', known', hrow⟩ := h.exists_mem
  obtain rfl : rows = rows' := Option.some.inj (known.symm.trans known')
  have below := lt_nextId CheckRow.id hrow
  have room := h.room rows known
  push_cast at room
  have other : id ≠ row.id := by omega
  refine ⟨⟨?_, h.numbered, fun rows' known' => ?_⟩, other, fits_of_le room ?_ ?_⟩
  · have own := h.own
    unfold checksOf at own ⊢
    rw [known] at own
    dsimp only [Option.getD_some] at own ⊢
    rw [List.filter_append, own, List.filter_cons_of_neg (by simpa [same] using other)]
    rfl
  · cases known'
    rw [nextId_snoc (same.trans number)]
    exact fits_of_le room (by have := h.numbered; omega) (by omega)
  · have := h.numbered
    omega
  · omega

/-- the end of another check leaves a check as it is -/
theorem Holds.changeCheck (h : Holds row more s) (other : check ≠ row.id)
    (same : ∀ r r', change r = .ok r' → r'.id = r.id)
    (changed : changeCheck action check change s = .ok t) : Holds row more t := by
  obtain ⟨-, others, rows, rows', known, known', ids⟩ := changeCheck_checksOf same changed
  refine ⟨(others row.id other.symm).trans h.own, h.numbered, fun rows'' known'' => ?_⟩
  obtain rfl : rows' = rows'' := Option.some.inj (known'.symm.trans known'')
  rw [nextId_congr ids]
  exact h.room rows known

end LintLedger.Store
