import LintLedger.Order.Insertion
import Mathlib

/-!
# Rows whose items can be compared

If any two items of a row can be compared, then none of the comparisons fails that are made while the row
is put in order (`firstFailure?_eq_none`): only items of the row are ever compared.
-/

namespace LintLedger.Order

variable {α ε : Type} {precedes : α → α → Except ε Bool}

/-- whether the items of a row can be compared -/
def Answers (precedes : α → α → Except ε Bool) (items : List α) : Prop :=
  ∀ a ∈ items, ∀ b ∈ items, ∃ r, precedes a b = .ok r

theorem Answers.of_subset {items others : List α} (h : Answers precedes items)
    (sub : ∀ a ∈ others, a ∈ items) : Answers precedes others :=
  fun a ha b hb => h a (sub a ha) b (sub b hb)

theorem exists_runLength_eq_ok {last : α} {rest : List α} (h : Answers precedes (last :: rest)) :
    ∃ n, runLength precedes last rest = .ok n := by
  induction rest generalizing last with
  | nil => exact ⟨0, rfl⟩
  | cons next rest ih =>
    obtain ⟨r, hr⟩ := h next (by simp) last (by simp)
    obtain ⟨n, hn⟩ := ih (h.of_subset fun a ha => List.mem_cons_of_mem last ha)
    unfold runLength
    rw [hr]
    cases r with
    | false => exact ⟨0, rfl⟩
    | true => exact ⟨n + 1, by simp only [hn, Except.map]⟩

theorem exists_placeOf_eq_ok {row : Array α} {item : α} (h : Answers precedes (item :: row.toList))
    (fuel low high : Nat) : ∃ n, placeOf precedes row item fuel low high = .ok n := by
  induction fuel generalizing low high with
  | zero => exact ⟨low, rfl⟩
  | succ fuel ih =>
    unfold placeOf
    by_cases open_ : low < high
    · rw [if_pos open_]
      dsimp only
      cases found : row[low + (high - low) / 2]? with
      | none => exact ⟨low, rfl⟩
      | some other =>
        have mem : other ∈ row.toList := (Array.mem_of_getElem? found).val
        obtain ⟨r, hr⟩ := h item List.mem_cons_self other (List.mem_cons_of_mem item mem)
        dsimp only
        rw [hr]
        cases r with
        | true => exact ih low _
        | false => exact ih _ high
    · rw [if_neg open_]
      exact ⟨low, rfl⟩

theorem mem_insertAt {row : Array α} {place : Nat} {item a : α} :
    a ∈ (insertAt row place item).toList ↔ a = item ∨ a ∈ row.toList := by
  unfold insertAt
  have parts : a ∈ row.toList ↔ a ∈ row.toList.take place ∨ a ∈ row.toList.drop place := by
    rw [← List.mem_append, List.take_append_drop]
  rw [parts]
  simp only [List.mem_append, List.mem_cons]
  tauto

theorem insertionFailure?_eq_none {row : Array α} {items : List α}
    (h : Answers precedes (items ++ row.toList)) : insertionFailure? precedes row items = none := by
  induction items generalizing row with
  | nil => rfl
  | cons item rest ih =>
    have one : Answers precedes (item :: row.toList) := h.of_subset fun a ha => by
      simp only [List.cons_append, List.mem_cons, List.mem_append] at ha ⊢
      tauto
    obtain ⟨place, found⟩ := exists_placeOf_eq_ok one (row.size + 1) 0 row.size
    unfold insertionFailure?
    rw [found]
    refine ih (h.of_subset fun a ha => ?_)
    simp only [List.cons_append, List.mem_cons, List.mem_append, mem_insertAt] at ha ⊢
    tauto

/-- no comparison fails while a row is put in order of which any two items can be compared -/
theorem firstFailure?_eq_none {items : List α} (h : Answers precedes items) :
    firstFailure? precedes items = none := by
  match items with
  | [] => rfl
  | [a] => rfl
  | a :: b :: rest =>
    obtain ⟨falls, first⟩ := h b (by simp) a (by simp)
    have goes : Answers (fun next last => (precedes next last).map (· == falls)) (b :: rest) := by
      intro c hc d hd
      obtain ⟨r, hr⟩ := h c (List.mem_cons_of_mem a hc) d (List.mem_cons_of_mem a hd)
      exact ⟨r == falls, by simp [hr, Except.map]⟩
    obtain ⟨more, hmore⟩ := exists_runLength_eq_ok goes
    simp only [firstFailure?, first, hmore]
    refine insertionFailure?_eq_none (h.of_subset fun c hc => ?_)
    rcases List.mem_append.mp hc with later | front
    · exact List.mem_cons_of_mem a (List.mem_cons_of_mem b (List.mem_of_mem_drop later))
    · refine List.mem_of_mem_take (i := more + 2) ?_
      cases falls with
      | true => exact List.mem_reverse.mp (by simpa using front)
      | false => simpa using front

end LintLedger.Order
