import LintLedger.Distinct
import LintLedger.Proofs.Outcome
import Mathlib

/-!
# The first of each key

An item stays in a list without repetition just if it is the first of its key (`mem_distinctBy`), and the
list is that of the items before which their key has not come (`distinctBy_eq_firsts`), in the order in which
the keys begin (`pairwise_beginsAt`).  Taking the first of each key commutes with every choice that goes by the
key (`filter_distinctBy_of`) and with reading the items off others (`distinctBy_map`), and it may be done by a
finer key before (`distinctBy_distinctBy`).  Where keys may be missing, it is done just if none is
(`keyed_eq_ok_iff`).  The numbers of items of each key add up to that of all items (`sum_tallyBy`).
-/

namespace LintLedger

open Outcome

variable {α β κ ι : Type} [DecidableEq κ] [DecidableEq ι]

/-- the first items of some keys are the first of the items of these keys -/
theorem filter_distinctBy (key : α → κ) (q : κ → Bool) (items : List α) :
    (distinctBy key items).filter (fun a => q (key a)) =
      distinctBy key (items.filter fun a => q (key a)) := by
  induction items with
  | nil => rfl
  | cons a rest ih =>
    rw [distinctBy, List.filter_cons, List.filter_cons]
    split
    · rw [distinctBy, ← ih, List.filter_filter, List.filter_filter]
      simp only [Bool.and_comm]
    · rename_i dropped
      rw [← ih, List.filter_filter]
      refine List.filter_congr fun b _ => ?_
      by_cases same : key b = key a
      · simp [same, dropped]
      · simp [same]

/-- a choice that goes by the key may be made before or after -/
theorem filter_distinctBy_of {key : α → κ} {p : α → Bool} {items : List α}
    (same : ∀ a ∈ items, ∀ b ∈ items, key a = key b → p a = p b) :
    (distinctBy key items).filter p = distinctBy key (items.filter p) := by
  let q : κ → Bool := fun k => items.any fun a => key a = k && p a
  have told : ∀ a ∈ items, p a = q (key a) := by
    intro a ha
    rw [Bool.eq_iff_iff, List.any_eq_true]
    constructor
    · exact fun yes => ⟨a, ha, by simpa using yes⟩
    · rintro ⟨b, hb, own⟩
      rw [Bool.and_eq_true, decide_eq_true_iff] at own
      exact (same a ha b hb own.1.symm).trans own.2
  rw [List.filter_congr fun a ha => told a ((distinctBy_sublist key items).subset ha),
    List.filter_congr told, filter_distinctBy key q]

/-- whatever goes by the key is so of some item just if it is of one that is kept -/
theorem any_distinctBy {key : α → κ} {p : α → Bool} {items : List α}
    (same : ∀ a ∈ items, ∀ b ∈ items, key a = key b → p a = p b) :
    (distinctBy key items).any p = items.any p := by
  rw [Bool.eq_iff_iff, List.any_eq_true, List.any_eq_true]
  constructor
  · rintro ⟨a, ha, yes⟩
    exact ⟨a, (distinctBy_sublist key items).subset ha, yes⟩
  · rintro ⟨a, ha, yes⟩
    obtain ⟨b, hb, own⟩ : ∃ b ∈ distinctBy key items, key b = key a := exists_mem_distinctBy ha
    exact ⟨b, hb, (same b ((distinctBy_sublist key items).subset hb) a ha own).trans yes⟩

/-- an item is kept just if it is the first of its key -/
theorem mem_distinctBy {key : α → κ} {items : List α} {a : α} :
    a ∈ distinctBy key items ↔ (items.filter fun b => key b = key a).head? = some a := by
  induction items with
  | nil => simp [distinctBy]
  | cons b rest ih =>
    rw [distinctBy, List.mem_cons, List.mem_filter, ih]
    by_cases same : key b = key a
    · simp [same, eq_comm]
    · have other : a ≠ b := fun h => same (h ▸ rfl)
      simp [same, other, Ne.symm same]

/-- an item that is kept leads all items of its key -/
theorem filter_eq_cons_of_mem_distinctBy {key : α → κ} {items : List α} {a : α} (h : a ∈ distinctBy key items) :
    items.filter (fun b => key b = key a) = a :: (items.filter fun b => key b = key a).drop 1 := by
  obtain ⟨rest, group⟩ := List.head?_eq_some_iff.mp (mem_distinctBy.mp h)
  rw [group]
  rfl

/-- items read off others are kept as these are -/
theorem distinctBy_map (key : β → κ) (f : α → β) (items : List α) :
    distinctBy key (items.map f) = (distinctBy (fun a => key (f a)) items).map f := by
  induction items with
  | nil => rfl
  | cons a rest ih =>
    rw [List.map_cons, distinctBy, distinctBy, ih, List.map_cons, List.filter_map]
    rfl

/-- the items of a list before which no item has their key -/
def firsts (key : α → κ) (items : List α) : List α :=
  (items.zipIdx.filter fun p => key p.1 ∉ (items.take p.2).map key).map Prod.fst

/-- a last item is kept just if its key has not come before -/
theorem distinctBy_concat (key : α → κ) (items : List α) (a : α) :
    distinctBy key (items ++ [a]) =
      distinctBy key items ++ if key a ∈ items.map key then [] else [a] := by
  induction items with
  | nil => rfl
  | cons b rest ih =>
    rw [List.cons_append, distinctBy, distinctBy, ih, List.filter_append, List.cons_append]
    congr 2
    by_cases same : key a = key b
    · by_cases later : key a ∈ rest.map key
      · simp [same]
      · simp [same]
    · by_cases later : key a ∈ rest.map key
      · rw [if_pos later, if_pos (by simp [later])]
        rfl
      · rw [if_neg later, if_neg (by simpa [same] using later)]
        simp [same]

theorem firsts_concat (key : α → κ) (items : List α) (a : α) :
    firsts key (items ++ [a]) = firsts key items ++ if key a ∈ items.map key then [] else [a] := by
  unfold firsts
  rw [List.zipIdx_append, List.filter_append, List.map_append]
  congr 1
  · -- what comes before an earlier item is as it was
    refine congrArg _ (List.filter_congr fun p hp => ?_)
    have within : p.2 ≤ items.length := by
      have := (List.mem_zipIdx' hp).1
      omega
    rw [List.take_append_of_le_length within]
  · by_cases before : key a ∈ items.map key
    · simp [before]
    · simp [before]

/-- what is kept is what no item of the same key has come before -/
theorem distinctBy_eq_firsts (key : α → κ) (items : List α) : distinctBy key items = firsts key items := by
  induction items using List.reverseRecOn with
  | nil => rfl
  | append_singleton items a ih => rw [distinctBy_concat, firsts_concat, ih]

/-- the first of each key can be taken among the first of each finer key -/
theorem distinctBy_distinctBy {fine : α → κ} {coarse : α → ι} {items : List α}
    (finer : ∀ a ∈ items, ∀ b ∈ items, fine a = fine b → coarse a = coarse b) :
    distinctBy coarse (distinctBy fine items) = distinctBy coarse items := by
  induction items with
  | nil => rfl
  | cons a rest ih =>
    have later := ih fun b hb c hc => finer b (List.mem_cons_of_mem a hb) c (List.mem_cons_of_mem a hc)
    -- whatever has another key in the coarse sense has another in the fine one
    have apart : ((distinctBy fine rest).filter fun b => fine b ≠ fine a).filter (fun b => coarse b ≠ coarse a) =
        (distinctBy fine rest).filter fun b => coarse b ≠ coarse a := by
      rw [List.filter_filter]
      refine List.filter_congr fun b hb => ?_
      have mem : b ∈ a :: rest := List.mem_cons_of_mem a ((distinctBy_sublist fine rest).subset hb)
      by_cases same : fine b = fine a
      · simp [finer b mem a List.mem_cons_self same]
      · simp [same]
    rw [distinctBy, distinctBy, distinctBy, filter_distinctBy coarse (· ≠ coarse a),
      filter_distinctBy coarse (· ≠ coarse a), apart, ← filter_distinctBy coarse (· ≠ coarse a), later,
      filter_distinctBy coarse (· ≠ coarse a)]

/-- keys that tell the same items apart keep the same items -/
theorem distinctBy_congr {key : α → κ} {other : α → ι} {items : List α}
    (same : ∀ a ∈ items, ∀ b ∈ items, key a = key b ↔ other a = other b) :
    distinctBy key items = distinctBy other items := by
  induction items with
  | nil => rfl
  | cons a rest ih =>
    have later := ih fun b hb c hc => same b (List.mem_cons_of_mem a hb) c (List.mem_cons_of_mem a hc)
    rw [distinctBy, distinctBy, later]
    refine congrArg (a :: ·) (List.filter_congr fun b hb => ?_)
    have mem : b ∈ rest := (distinctBy_sublist other rest).subset hb
    simp [same b (List.mem_cons_of_mem a mem) a List.mem_cons_self]

/-- items are thinned out by keys that may be missing just if none is, and then the first of each key is kept -/
theorem keyed_eq_ok_iff {ε : Type} {key : α → Except ε κ} {items kept : List α} :
    (do
      let keyed ← items.mapM fun a => do
        let k ← key a
        return (k, a)
      return (distinctBy Prod.fst keyed).map Prod.snd) = .ok kept ↔
      (∀ a ∈ items, ∃ k, key a = .ok k) ∧ kept = distinctBy (fun a => (key a).toOption) items := by
  have one : ∀ a p, (do let k ← key a; return (k, a) : Except ε _) = .ok p → p.2 = a ∧ key p.2 = .ok p.1 := by
    intro a p h
    obtain ⟨k, hk, h⟩ := bind_eq_ok.mp h
    cases h
    exact ⟨rfl, hk⟩
  have whole : ∀ {keyed}, (items.mapM fun a => do let k ← key a; return (k, a)) = .ok keyed →
      (distinctBy Prod.fst keyed).map Prod.snd = distinctBy (fun a => (key a).toOption) items := by
    intro keyed h
    have items' : keyed.map Prod.snd = items := (map_of_mapM (g := id) (fun a p h => (one a p h).1) h).trans (List.map_id _)
    rw [← items', distinctBy_map]
    refine congrArg _ (distinctBy_congr fun p hp q hq => ?_)
    obtain ⟨a, -, ha⟩ := exists_of_mem_mapM h hp
    obtain ⟨b, -, hb⟩ := exists_of_mem_mapM h hq
    rw [(one a p ha).2, (one b q hb).2]
    exact (Option.some.injEq _ _).to_iff.symm
  rw [bind_eq_ok]
  constructor
  · rintro ⟨keyed, hkeyed, h⟩
    refine ⟨fun a ha => ?_, (Except.ok.inj h).symm.trans (whole hkeyed)⟩
    obtain ⟨p, -, hp⟩ := exists_mem_mapM hkeyed ha
    exact ⟨p.1, (one a p hp).1 ▸ (one a p hp).2⟩
  · rintro ⟨keys, rfl⟩
    obtain ⟨keyed, hkeyed⟩ := exists_mapM_eq_ok.mpr fun a ha =>
      (keys a ha).imp' (fun k => (k, a)) fun k hk => bind_eq_ok.mpr ⟨k, hk, rfl⟩
    exact ⟨keyed, hkeyed, congrArg _ (whole hkeyed)⟩

/-! ### Where keys begin -/

/-- the place of the first item of a key -/
def beginsAt (key : α → κ) (items : List α) (k : κ) : ℕ := items.findIdx fun a => key a = k

theorem beginsAt_cons_self (key : α → κ) (items : List α) (a : α) :
    beginsAt key (a :: items) (key a) = 0 := by
  simp [beginsAt, List.findIdx_cons]

theorem beginsAt_cons_of_ne {key : α → κ} {items : List α} {a : α} {k : κ} (other : k ≠ key a) :
    beginsAt key (a :: items) k = beginsAt key items k + 1 := by
  simp [beginsAt, List.findIdx_cons, Ne.symm other]

/-- what is kept of a key stands where the key begins -/
theorem getElem?_beginsAt {key : α → κ} {items : List α} {a : α} (h : a ∈ distinctBy key items) :
    items[beginsAt key items (key a)]? = some a := by
  induction items with
  | nil => cases h
  | cons b rest ih =>
    rcases List.mem_cons.mp h with rfl | later
    · rw [beginsAt_cons_self]
      rfl
    · obtain ⟨kept, other⟩ := List.mem_filter.mp later
      rw [beginsAt_cons_of_ne (by simpa using other), List.getElem?_cons_succ, ih kept]

/-- what is kept stands in the order in which keys begin -/
theorem pairwise_beginsAt (key : α → κ) (items : List α) :
    (distinctBy key items).Pairwise fun a b =>
      beginsAt key items (key a) < beginsAt key items (key b) := by
  induction items with
  | nil => exact .nil
  | cons a rest ih =>
    have others : ∀ b ∈ (distinctBy key rest).filter (fun b => key b ≠ key a), key b ≠ key a :=
      fun b hb => by simpa using (List.mem_filter.mp hb).2
    rw [distinctBy, List.pairwise_cons]
    constructor
    · intro b hb
      rw [beginsAt_cons_self, beginsAt_cons_of_ne (others b hb)]
      exact Nat.succ_pos _
    · refine (ih.filter _).imp_of_mem fun {b c} hb hc before => ?_
      rw [beginsAt_cons_of_ne (others b hb), beginsAt_cons_of_ne (others c hc)]
      exact Nat.succ_lt_succ before

theorem beginsAt_id [DecidableEq α] (items : List α) (a : α) : beginsAt id items a = items.idxOf a := by
  unfold beginsAt List.idxOf
  exact congrArg (items.findIdx ·) (funext fun b => (beq_eq_decide b a).symm)

/-! ### How often keys occur -/

/-- the keys that are kept are those that occur -/
theorem map_distinctBy_perm (key : α → κ) (items : List α) :
    ((distinctBy key items).map key).Perm (items.map key).dedup := by
  have apart : ((distinctBy key items).map key).Nodup :=
    List.pairwise_map.mpr (pairwise_distinctBy key items)
  refine (List.perm_ext_iff_of_nodup apart (List.nodup_dedup _)).mpr fun k => ?_
  rw [List.mem_dedup, List.mem_map, List.mem_map]
  constructor
  · rintro ⟨a, ha, rfl⟩
    exact ⟨a, (distinctBy_sublist key items).subset ha, rfl⟩
  · rintro ⟨a, ha, rfl⟩
    exact exists_mem_distinctBy ha

/-- how often each key occurs, told once of each, adds up to the number of all items -/
theorem sum_countP_eq_length {key : α → κ} {items : List α} {keys : List κ} (apart : keys.Nodup)
    (occurs : ∀ k, k ∈ keys ↔ ∃ a ∈ items, key a = k) :
    (keys.map fun k => items.countP fun a => key a = k).sum = items.length := by
  have perm : keys.Perm (items.map key).dedup :=
    (List.perm_ext_iff_of_nodup apart (List.nodup_dedup _)).mpr fun k => by
      rw [List.mem_dedup, occurs, List.mem_map]
  have counts : (fun k => items.countP fun a => key a = k) = fun k => (items.map key).count k := by
    funext k
    rw [List.count_eq_countP, List.countP_map]
    exact List.countP_congr fun a _ => by simp
  rw [counts, (perm.map _).sum_eq, List.sum_map_count_dedup_eq_length, List.length_map]

/-- the items of each key, counted key by key, are all items -/
theorem sum_tallyBy (key : α → κ) (items : List α) :
    ((tallyBy key items).map Prod.snd).sum = items.length := by
  have apart : ((distinctBy key items).map key).Nodup :=
    List.pairwise_map.mpr (pairwise_distinctBy key items)
  rw [← sum_countP_eq_length apart fun k => ?_, tallyBy, List.map_map, List.map_map]
  · rfl
  · rw [(map_distinctBy_perm key items).mem_iff, List.mem_dedup, List.mem_map]

/-! ### Items that are their own keys -/

theorem mem_distinct [DecidableEq α] {items : List α} {a : α} :
    a ∈ distinct items ↔ a ∈ items := by
  constructor
  · exact fun h => (distinctBy_sublist id items).subset h
  · intro h
    obtain ⟨b, hb, rfl⟩ : ∃ b ∈ distinct items, id b = id a := exists_mem_distinctBy h
    exact hb

theorem nodup_distinct [DecidableEq α] (items : List α) : (distinct items).Nodup :=
  pairwise_distinctBy id items

theorem length_distinct [DecidableEq α] (items : List α) : (distinct items).length = items.toFinset.card := by
  rw [← List.toFinset_card_of_nodup (nodup_distinct items)]
  congr 1
  ext a
  rw [List.mem_toFinset, List.mem_toFinset, mem_distinct]

end LintLedger
