import LintLedger.Failure
import Mathlib

/-!
# Outcomes

What a piece of work that may fail says of its parts once it has ended well: each part of it ended
well too (`bind_eq_ok`, `map_eq_ok`), and work done on every item of a list ended well on each of them
(`mapM_eq_ok`).
-/

namespace LintLedger.Outcome

variable {ε α β : Type}

theorem exists_eq_ok {x : Except ε α} : (∃ a, x = .ok a) ↔ x.isOk = true := by
  cases x with
  | error e => simp [Except.isOk, Except.toBool]
  | ok a => simp [Except.isOk, Except.toBool]

theorem ok_bind (a : α) (f : α → Except ε β) : (Except.ok a >>= f) = f a := rfl

theorem bind_eq_ok {x : Except ε α} {f : α → Except ε β} {b : β} :
    (x >>= f) = .ok b ↔ ∃ a, x = .ok a ∧ f a = .ok b := by
  cases x with
  | error e => simp [bind, Except.bind]
  | ok a => simp [bind, Except.bind]

theorem bind_eq_error {x : Except ε α} {f : α → Except ε β} {e : ε} :
    (x >>= f) = .error e ↔ x = .error e ∨ ∃ a, x = .ok a ∧ f a = .error e := by
  cases x with
  | error e => simp [bind, Except.bind]
  | ok a => simp [bind, Except.bind]

theorem map_eq_ok {x : Except ε α} {f : α → β} {b : β} :
    x.map f = .ok b ↔ ∃ a, x = .ok a ∧ f a = b := by
  cases x with
  | error e => simp [Except.map]
  | ok a => simp [Except.map]

theorem map_eq_error {x : Except ε α} {f : α → β} {e : ε} : x.map f = .error e ↔ x = .error e := by
  cases x with
  | error e => simp [Except.map]
  | ok a => simp [Except.map]

theorem orFail_eq_ok {x : Except Fault α} {a : α} : orFail x = .ok a ↔ x = .ok a := by
  cases x with
  | error f => simp [orFail]
  | ok b => simp [orFail]

theorem eq_ok_of_toOption {x : Except ε α} {a : α} (h : x.toOption = some a) : x = .ok a := by
  cases x with
  | error e => cases h
  | ok b => exact congrArg _ (Option.some.inj h)

/-! ### Work on every item of a list -/

theorem mapM_eq_ok {f : α → Except ε β} {xs : List α} {ys : List β} :
    xs.mapM f = .ok ys ↔ List.Forall₂ (fun x y => f x = .ok y) xs ys := by
  induction xs generalizing ys with
  | nil => cases ys <;> simp [pure, Except.pure]
  | cons x xs ih =>
    rw [List.mapM_cons, bind_eq_ok, List.forall₂_cons_left_iff]
    constructor
    · rintro ⟨y, hy, h⟩
      obtain ⟨zs, hzs, h⟩ := bind_eq_ok.mp h
      obtain rfl : y :: zs = ys := by simpa [pure, Except.pure] using h
      exact ⟨y, zs, hy, ih.mp hzs, rfl⟩
    · rintro ⟨y, zs, hy, hzs, rfl⟩
      exact ⟨y, hy, bind_eq_ok.mpr ⟨zs, ih.mpr hzs, rfl⟩⟩

/-- work on a list ends well just if it does on each of its items -/
theorem exists_mapM_eq_ok {f : α → Except ε β} {xs : List α} :
    (∃ ys, xs.mapM f = .ok ys) ↔ ∀ x ∈ xs, ∃ y, f x = .ok y := by
  induction xs with
  | nil => simp [pure, Except.pure]
  | cons x xs ih =>
    rw [List.forall_mem_cons, ← ih]
    constructor
    · rintro ⟨ys, h⟩
      obtain ⟨y, zs, hy, hzs, -⟩ := List.forall₂_cons_left_iff.mp (mapM_eq_ok.mp h)
      exact ⟨⟨y, hy⟩, zs, mapM_eq_ok.mpr hzs⟩
    · rintro ⟨⟨y, hy⟩, zs, hzs⟩
      exact ⟨y :: zs, mapM_eq_ok.mpr (.cons hy (mapM_eq_ok.mp hzs))⟩

/-- work on each item that ends well just for some items, and then by a rule, ends well on a list of such
items and goes by that rule -/
theorem mapM_eq_ok_map {f : α → Except ε β} {P : α → Prop} {g : α → β}
    (one : ∀ x y, f x = .ok y ↔ P x ∧ y = g x) {xs : List α} {ys : List β} :
    xs.mapM f = .ok ys ↔ (∀ x ∈ xs, P x) ∧ ys = xs.map g := by
  rw [mapM_eq_ok]
  induction xs generalizing ys with
  | nil => simp
  | cons x xs ih =>
    rw [List.forall₂_cons_left_iff, List.forall_mem_cons, List.map_cons]
    constructor
    · rintro ⟨y, zs, hy, hzs, rfl⟩
      obtain ⟨hx, rfl⟩ := (one x y).mp hy
      obtain ⟨hxs, rfl⟩ := ih.mp hzs
      exact ⟨⟨hx, hxs⟩, rfl⟩
    · rintro ⟨⟨hx, hxs⟩, rfl⟩
      exact ⟨g x, xs.map g, (one x _).mpr ⟨hx, rfl⟩, ih.mpr ⟨hxs, rfl⟩, rfl⟩

theorem exists_of_mem_mapM {f : α → Except ε β} {xs : List α} {ys : List β}
    (h : xs.mapM f = .ok ys) {y : β} (hy : y ∈ ys) : ∃ x ∈ xs, f x = .ok y := by
  have all := mapM_eq_ok.mp h
  clear h
  induction all with
  | nil => cases hy
  | @cons x z xs zs hxz _ ih =>
    rcases List.mem_cons.mp hy with rfl | later
    · exact ⟨x, List.mem_cons_self, hxz⟩
    · obtain ⟨w, hw, hwy⟩ := ih later
      exact ⟨w, List.mem_cons_of_mem _ hw, hwy⟩

theorem exists_mem_mapM {f : α → Except ε β} {xs : List α} {ys : List β}
    (h : xs.mapM f = .ok ys) {x : α} (hx : x ∈ xs) : ∃ y ∈ ys, f x = .ok y := by
  have all := mapM_eq_ok.mp h
  clear h
  induction all with
  | nil => cases hx
  | @cons w y ws ys hwy _ ih =>
    rcases List.mem_cons.mp hx with rfl | later
    · exact ⟨y, List.mem_cons_self, hwy⟩
    · obtain ⟨z, hz, hxz⟩ := ih later
      exact ⟨z, List.mem_cons_of_mem _ hz, hxz⟩

/-- what work on each item leaves as it was, work on all of them leaves as it was -/
theorem map_of_mapM {γ : Type} {f : α → Except ε β} {g : α → γ} {g' : β → γ}
    (same : ∀ x y, f x = .ok y → g' y = g x) {xs : List α} {ys : List β} (h : xs.mapM f = .ok ys) :
    ys.map g' = xs.map g := by
  have all := mapM_eq_ok.mp h
  clear h
  induction all with
  | nil => rfl
  | cons one _ ih => rw [List.map_cons, List.map_cons, ih, same _ _ one]

/-- work that ends well on each item, and there gives what other work gave but for a change, does so on the
list -/
theorem mapM_eq_ok_of_mapM {f g : α → Except ε β} {k : β → β} {xs : List α} {ys : List β}
    (h : xs.mapM f = .ok ys) (same : ∀ x ∈ xs, ∀ y ∈ ys, f x = .ok y → g x = .ok (k y)) :
    xs.mapM g = .ok (ys.map k) := by
  have all := mapM_eq_ok.mp h
  clear h
  rw [mapM_eq_ok]
  induction all with
  | nil => exact .nil
  | @cons x y xs ys one _ ih =>
    refine .cons (same x List.mem_cons_self y List.mem_cons_self one) (ih fun z hz w hw => ?_)
    exact same z (List.mem_cons_of_mem x hz) w (List.mem_cons_of_mem y hw)

theorem mapM_congr {f g : α → Except ε β} {xs : List α} (same : ∀ x ∈ xs, f x = g x) :
    xs.mapM f = xs.mapM g := by
  induction xs with
  | nil => rfl
  | cons x xs ih =>
    rw [List.mapM_cons, List.mapM_cons, same x List.mem_cons_self,
      ih fun y hy => same y (List.mem_cons_of_mem x hy)]

/-- work that leaves every item as it is leaves the list as it is -/
theorem mapM_ok (xs : List α) : xs.mapM (fun x => (.ok x : Except ε α)) = .ok xs := by
  induction xs with
  | nil => rfl
  | cons x xs ih =>
    rw [List.mapM_cons, ih]
    rfl

/-- work on each item that leaves a property as it was works on the items that have it -/
theorem filter_of_mapM {f : α → Except ε β} {p : α → Bool} {p' : β → Bool}
    (same : ∀ x y, f x = .ok y → p' y = p x) {xs : List α} {ys : List β} (h : xs.mapM f = .ok ys) :
    (xs.filter p).mapM f = .ok (ys.filter p') := by
  have all := mapM_eq_ok.mp h
  clear h
  rw [mapM_eq_ok]
  induction all with
  | nil => exact .nil
  | @cons x y xs ys one _ ih =>
    rw [List.filter_cons, List.filter_cons, same x y one]
    split
    · exact .cons one ih
    · exact ih

end LintLedger.Outcome
