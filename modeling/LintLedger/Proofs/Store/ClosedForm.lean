import LintLedger.Proofs.Distinct
import LintLedger.Proofs.Store.Lifecycle
import LintLedger.Proofs.Store.OneByOne
import LintLedger.Proofs.Store.Storable
import Mathlib

/-!
# What storing comes to

Whether violations are stored in batches or one by one, what is left has a closed form
(`storeOneByOne_eq_ok_iff`): every row whose fingerprint is written is seen, and each fingerprint without
a row has one made of the first violation that bears it.
-/

namespace LintLedger

open Outcome

namespace Store

variable {now : Instant} {rows rows' : List ViolationRow} {r r' : StoreResult} {f : String}
  {vs ws : List Violation} {prints : List String} {valid valid' : List (String × Violation)}
  {item : String × Violation}

/-! ### What one by one comes to -/

/-- the violations whose fingerprints are not among some others, the first of each fingerprint -/
def unknown (prints : List String) (valid : List (String × Violation)) : List (String × Violation) :=
  distinctBy Prod.fst (valid.filter fun item => item.1 ∉ prints)

theorem unknown_cons_of_mem (known : item.1 ∈ prints) :
    unknown prints (item :: valid) = unknown prints valid := by
  unfold unknown
  rw [List.filter_cons_of_neg (by simpa using known)]

theorem unknown_cons_of_not_mem (new : item.1 ∉ prints) :
    unknown prints (item :: valid) = item :: unknown (prints ++ [item.1]) valid := by
  have others := filter_distinctBy Prod.fst (fun f => decide (f ≠ item.1))
    (valid.filter fun item => item.1 ∉ prints)
  unfold unknown
  rw [List.filter_cons_of_pos (by simpa using new), distinctBy, others, List.filter_filter]
  refine congrArg (fun items => item :: distinctBy Prod.fst items) (List.filter_congr fun other _ => ?_)
  simp [and_comm]

/-- of violations in two parts, those of the second part are unknown whose fingerprints are not among those of
the first either -/
theorem unknown_append : unknown prints (valid ++ valid') =
    unknown prints valid ++ unknown (prints ++ (unknown prints valid).map Prod.fst) valid' := by
  induction valid generalizing prints with
  | nil => simp [unknown, distinctBy]
  | cons item rest ih =>
    rw [List.cons_append]
    by_cases known : item.1 ∈ prints
    · rw [unknown_cons_of_mem known, unknown_cons_of_mem known, ih]
    · rw [unknown_cons_of_not_mem known, unknown_cons_of_not_mem known, ih, List.map_cons,
        List.append_assoc, List.singleton_append, List.cons_append]

theorem printsOf_append {more : List ViolationRow} :
    printsOf (rows ++ more) = printsOf rows ++ printsOf more := List.map_append

theorem printsOf_snoc {row : ViolationRow} (print : row.fingerprint = f) :
    printsOf (rows ++ [row]) = printsOf rows ++ [f] := by
  simp [printsOf, print]

/-- what violations make of rows and counts: a new row for the first of each fingerprint that has none, and
the rows of all are seen -/
def Placed (now : Instant) (valid : List (String × Violation)) (r : StoreResult) (rows : List ViolationRow)
    (r' : StoreResult) (rows' : List ViolationRow) : Prop :=
  ∃ fresh, (unknown (printsOf rows) valid).mapM (fun item => newRow now item.1 item.2) = .ok fresh ∧
    rows' = refresh now (valid.map Prod.fst) rows ++ fresh ∧
    r'.inserted = r.inserted + fresh.length ∧
    r'.inserted + r'.updated = r.inserted + r.updated + valid.length ∧ r'.errors = r.errors

theorem placed_nil : Placed now [] r rows r' rows' ↔ r = r' ∧ rows = rows' := by
  obtain ⟨inserted, updated, errors⟩ := r
  obtain ⟨inserted', updated', errors'⟩ := r'
  unfold Placed
  simp only [unknown, List.filter_nil, distinctBy, List.mapM_nil, pure, Except.pure, Except.ok.injEq,
    StoreResult.mk.injEq, List.map_nil, exists_eq_left', List.length_nil]
  rw [show refresh now [] rows = rows by simp [refresh], List.append_nil]
  constructor
  · rintro ⟨rfl, rfl, total, rfl⟩
    exact ⟨⟨rfl, by omega, rfl⟩, rfl⟩
  · rintro ⟨⟨rfl, rfl, rfl⟩, rfl⟩
    exact ⟨rfl, rfl, rfl, rfl⟩

/-- a violation whose fingerprint has a row sees it -/
theorem placed_cons_of_mem (known : item.1 ∈ printsOf rows) :
    Placed now (item :: valid) r rows r' rows' ↔
      Placed now valid { r with updated := r.updated + 1 } (refresh now [item.1] rows) r' rows' := by
  have both : refresh now ((item :: valid).map Prod.fst) rows =
      refresh now (valid.map Prod.fst) (refresh now [item.1] rows) := by
    rw [← refresh_append]
    rfl
  unfold Placed
  rw [unknown_cons_of_mem known, both, printsOf_refresh, List.length_cons]
  refine exists_congr fun fresh => and_congr_right fun _ => and_congr_right fun _ =>
    and_congr_right fun _ => and_congr_left fun _ => ?_
  dsimp only
  omega

/-- a violation whose fingerprint has no row writes one -/
theorem placed_cons_of_not_mem (new : item.1 ∉ printsOf rows) :
    Placed now (item :: valid) r rows r' rows' ↔ ∃ row, newRow now item.1 item.2 = .ok row ∧
      Placed now valid { r with inserted := r.inserted + 1 } (rows ++ [row]) r' rows' := by
  have both : refresh now ((item :: valid).map Prod.fst) rows = refresh now (valid.map Prod.fst) rows := by
    rw [List.map_cons, ← List.singleton_append, refresh_append, refresh_of_not_mem new]
  unfold Placed
  rw [unknown_cons_of_not_mem new, both, List.length_cons]
  simp only [List.mapM_cons, bind_eq_ok]
  constructor
  · rintro ⟨fresh', ⟨row, made, fresh, others, h⟩, left, inserted, total, errors⟩
    cases h
    refine ⟨row, made, fresh, ?_, ?_, ?_, ?_, errors⟩
    · rw [printsOf_snoc (newRow_isFresh made).1]
      exact others
    · rw [left, refresh_snoc (newRow_seen made), List.append_assoc, List.singleton_append]
    · rw [List.length_cons] at inserted
      omega
    · omega
  · rintro ⟨row, made, fresh, others, left, inserted, total, errors⟩
    rw [printsOf_snoc (newRow_isFresh made).1] at others
    refine ⟨row :: fresh, ⟨row, made, fresh, others, rfl⟩, ?_, ?_, by omega, errors⟩
    · rw [left, refresh_snoc (newRow_seen made), List.append_assoc, List.singleton_append]
    · rw [List.length_cons]
      omega

/-- stored one by one, violations are placed -/
theorem foldlM_place_eq_ok_iff :
    valid.foldlM (place now) (r, rows) = .ok (r', rows') ↔ Placed now valid r rows r' rows' := by
  induction valid generalizing r rows with
  | nil =>
    rw [placed_nil, List.foldlM_nil]
    simp [pure, Except.pure]
  | cons item rest ih =>
    rw [List.foldlM_cons, bind_eq_ok]
    by_cases known : item.1 ∈ printsOf rows
    · have placed : place now (r, rows) item =
          .ok ({ r with updated := r.updated + 1 }, refresh now [item.1] rows) :=
        if_pos (any_isRow.mpr known)
      rw [placed_cons_of_mem known, placed, ← ih]
      simp
    · have placed : place now (r, rows) item = (newRow now item.1 item.2).map fun row =>
          ({ r with inserted := r.inserted + 1 }, rows ++ [row]) :=
        if_neg fun h => known (any_isRow.mp h)
      rw [placed_cons_of_not_mem known, placed]
      simp only [map_eq_ok, ← ih]
      constructor
      · rintro ⟨mid, ⟨row, made, rfl⟩, run⟩
        exact ⟨row, made, run⟩
      · rintro ⟨row, made, run⟩
        exact ⟨_, ⟨row, made, rfl⟩, run⟩

/-! ### What screening keeps -/

theorem acceptedPrint?_of_told {v : Violation} {problems : List Violation.Problem}
    (told : v.problems = .ok problems) :
    v.acceptedPrint? = if problems = [] then v.fingerprint.toOption else none := by
  unfold Violation.acceptedPrint? Violation.isAccepted
  rw [told]
  simp only [List.isEmpty_iff]

/-- what is accepted has no problems, and a fingerprint -/
theorem clean_of_acceptedPrint?_eq_some {v : Violation} (h : v.acceptedPrint? = some f) :
    v.problems = .ok [] ∧ v.fingerprint = .ok f := by
  unfold Violation.acceptedPrint? Violation.isAccepted at h
  cases told : v.problems with
  | error fault => simp [told] at h
  | ok problems =>
    cases print : v.fingerprint with
    | error fault => simp [told, print, Except.toOption] at h
    | ok g => simp_all [Except.toOption, List.isEmpty_iff]

/-- screening keeps each accepted violation with its fingerprint -/
theorem screen_valid {index : Nat} {errors : List String}
    (h : screen index vs = .ok (valid, errors)) :
    valid = vs.filterMap fun v => v.acceptedPrint?.map (·, v) := by
  induction vs generalizing index valid errors with
  | nil =>
    cases h
    rfl
  | cons v rest ih =>
    obtain ⟨problems, told, others, reports, screened, ⟨none, f, print, rfl, rfl⟩ | ⟨some, rfl, rfl⟩⟩ :=
      screen_cons_eq_ok_iff.mp h
    · have accepted : v.acceptedPrint? = .some f := by
        rw [acceptedPrint?_of_told told, if_pos none, print]
        rfl
      rw [List.filterMap_cons_some (by rw [accepted]; rfl), ← ih screened]
    · have rejected : v.acceptedPrint? = .none := by
        rw [acceptedPrint?_of_told told, if_neg some]
      rw [List.filterMap_cons_none (by rw [rejected]; rfl), ← ih screened]

/-- what screening keeps has no problems, and the fingerprint with which it is kept -/
theorem clean_of_mem_screen {index : Nat} {errors : List String}
    (h : screen index vs = .ok (valid, errors)) (hitem : item ∈ valid) :
    item.2 ∈ vs ∧ item.2.problems = .ok [] ∧ item.2.fingerprint = .ok item.1 := by
  rw [screen_valid h] at hitem
  obtain ⟨v, hv, hitem⟩ := List.mem_filterMap.mp hitem
  obtain ⟨f, accepted, rfl⟩ := Option.map_eq_some_iff.mp hitem
  exact ⟨hv, clean_of_acceptedPrint?_eq_some accepted⟩

/-- violations can be screened just if the problems of each can be told, and the fingerprint of each
without problems -/
theorem exists_screen_eq_ok (index : Nat) :
    (∃ valid errors, screen index vs = .ok (valid, errors)) ↔
      ∀ v ∈ vs, ∃ problems, v.problems = .ok problems ∧
        (problems = [] → ∃ f, v.fingerprint = .ok f) := by
  induction vs generalizing index with
  | nil => simp [screen]
  | cons v rest ih =>
    rw [List.forall_mem_cons, ← ih (index + 1)]
    constructor
    · rintro ⟨valid, errors, h⟩
      obtain ⟨problems, told, others, reports, screened, ⟨none, f, print, -⟩ | ⟨some, -⟩⟩ :=
        screen_cons_eq_ok_iff.mp h
      · exact ⟨⟨problems, told, fun _ => ⟨f, print⟩⟩, others, reports, screened⟩
      · exact ⟨⟨problems, told, fun none => absurd none some⟩, others, reports, screened⟩
    · rintro ⟨⟨problems, told, named⟩, others, reports, screened⟩
      by_cases none : problems = []
      · obtain ⟨f, print⟩ := named none
        exact ⟨_, _, screen_cons_eq_ok_iff.mpr
          ⟨problems, told, others, reports, screened, .inl ⟨none, f, print, rfl, rfl⟩⟩⟩
      · exact ⟨_, _, screen_cons_eq_ok_iff.mpr
          ⟨problems, told, others, reports, screened, .inr ⟨none, rfl, rfl⟩⟩⟩

/-- storing one by one in closed form -/
theorem storeOneByOne_eq_ok_iff :
    storeOneByOne now vs rows = .ok (r, rows') ↔ ∃ valid fresh,
      screen 0 vs = .ok (valid, r.errors) ∧
      (unknown (printsOf rows) valid).mapM (fun item => newRow now item.1 item.2) = .ok fresh ∧
      rows' = refresh now (valid.map Prod.fst) rows ++ fresh ∧
      r.inserted = fresh.length ∧ r.inserted + r.updated = valid.length := by
  unfold storeOneByOne
  rw [foldlM_storeOne_eq_ok_iff]
  simp only [foldlM_place_eq_ok_iff, Placed, List.nil_append, Nat.zero_add]
  constructor
  · rintro ⟨valid, errors, screened, fresh, made, left, inserted, total, rfl⟩
    exact ⟨valid, fresh, screened, made, left, inserted, total⟩
  · rintro ⟨valid, fresh, screened, made, left, inserted, total⟩
    exact ⟨valid, r.errors, screened, fresh, made, left, inserted, total, rfl⟩

/-! ### Storing again -/

/-- what has been stored is as if it were seen at that moment -/
theorem seen_of_storeOneByOne (h : storeOneByOne now vs rows = .ok (r, rows')) {row : ViolationRow}
    (hrow : row ∈ rows') (written : row.fingerprint ∈ Violation.acceptedPrints vs) :
    row.seen now = row := by
  obtain ⟨valid, fresh, screened, made, rfl, -, -⟩ := storeOneByOne_eq_ok_iff.mp h
  rw [← (screen_eq_ok screened).1] at written
  rcases List.mem_append.mp hrow with old | new
  · obtain ⟨before, -, rfl⟩ := List.mem_map.mp old
    by_cases touched : before.fingerprint ∈ valid.map Prod.fst
    · rw [if_pos touched, seen_seen]
    · rw [if_neg touched] at written
      exact absurd written touched
  · obtain ⟨item, -, one⟩ := exists_of_mem_mapM made new
    exact newRow_seen one

/-- violations stored again write no row and see those of all that were accepted -/
theorem storeOneByOne_again (later : Instant) (h : storeOneByOne now vs rows = .ok (r, rows')) :
    storeOneByOne later vs rows' = .ok (⟨0, vs.countP Violation.isAccepted, r.errors⟩,
      rows'.map fun row => if row.fingerprint ∈ Violation.acceptedPrints vs then
        { row with lastSeen := later } else row) := by
  have seen : ∀ row ∈ rows', row.fingerprint ∈ Violation.acceptedPrints vs → row.seen now = row :=
    fun row hrow written => seen_of_storeOneByOne h hrow written
  obtain ⟨valid, fresh, screened, made, left, -, -⟩ := storeOneByOne_eq_ok_iff.mp h
  obtain ⟨prints, count, -⟩ := screen_eq_ok screened
  have covered : ∀ item ∈ valid, item.1 ∈ printsOf rows' := by
    intro item hitem
    rw [left, printsOf_append, printsOf_refresh, List.mem_append]
    by_cases old : item.1 ∈ printsOf rows
    · exact .inl old
    · have new : item ∈ valid.filter fun item => item.1 ∉ printsOf rows :=
        List.mem_filter.mpr ⟨hitem, decide_eq_true old⟩
      obtain ⟨first, hfirst, same⟩ : ∃ first ∈ unknown (printsOf rows) valid, first.1 = item.1 :=
        exists_mem_distinctBy new
      obtain ⟨row, hrow, one⟩ := exists_mem_mapM made hfirst
      exact .inr (mem_printsOf.mpr ⟨row, hrow, (newRow_isFresh one).1.trans same⟩)
  -- so nothing is new the second time
  have nothing : unknown (printsOf rows') valid = [] := by
    unfold unknown
    rw [List.filter_eq_nil_iff.mpr (by simpa using covered)]
    rfl
  refine storeOneByOne_eq_ok_iff.mpr ⟨valid, [], screened, by rw [nothing]; rfl, ?_, rfl, ?_⟩
  · rw [List.append_nil, prints]
    refine List.map_congr_left fun row hrow => ?_
    by_cases written : row.fingerprint ∈ Violation.acceptedPrints vs
    · rw [if_pos written, if_pos written, ← seen row hrow written]
      rfl
    · rw [if_neg written, if_neg written]
  · simpa using count.symm

/-! ### Storing in another order -/

/-- the same violations in another order, those of each fingerprint in the same -/
structure Reordered (vs ws : List Violation) : Prop where
  perm : ws.Perm vs
  each : ∀ f, (ws.filter fun v => v.acceptedPrint? = some f) = vs.filter fun v => v.acceptedPrint? = some f

theorem unknown_perm
    (each : ∀ f, (valid'.filter fun item => item.1 = f) = valid.filter fun item => item.1 = f) :
    (unknown prints valid').Perm (unknown prints valid) := by
  -- what stands for a fingerprint depends only on the items that bear it
  have first : ∀ (valid : List (String × Violation)) (item : String × Violation),
      item ∈ unknown prints valid ↔
        item.1 ∉ prints ∧ (valid.filter fun other => other.1 = item.1).head? = some item := by
    intro valid item
    unfold unknown
    rw [mem_distinctBy, List.filter_filter]
    have agree : ∀ other : String × Violation,
        (decide (other.1 = item.1) && decide (other.1 ∉ prints)) =
          (decide (other.1 = item.1) && decide (item.1 ∉ prints)) := by
      intro other
      by_cases same : other.1 = item.1 <;> simp [same]
    simp only [agree]
    by_cases known : item.1 ∈ prints <;> simp [known]
  have nodup : ∀ valid : List (String × Violation), (unknown prints valid).Nodup := fun valid =>
    (pairwise_distinctBy Prod.fst _).imp fun {a b} other same => other (congrArg Prod.fst same)
  refine (List.perm_ext_iff_of_nodup (nodup _) (nodup _)).mpr fun item => ?_
  rw [first, first, each]

/-- of the violations that screening has kept, those of one fingerprint -/
theorem filter_accepted :
    ((vs.filterMap fun v => v.acceptedPrint?.map (·, v)).filter fun item => item.1 = f) =
      (vs.filter fun v => v.acceptedPrint? = some f).filterMap fun v =>
        v.acceptedPrint?.map (·, v) := by
  rw [List.filter_filterMap, List.filterMap_filter]
  refine List.filterMap_congr fun v _ => ?_
  cases v.acceptedPrint? with
  | none => simp
  | some g => by_cases same : g = f <;> simp [same]

/-- in another order, violations leave the same rows in another order, and the same counts -/
theorem storeOneByOne_reordered (same : Reordered vs ws)
    (h : storeOneByOne now vs rows = .ok (r, rows')) :
    ∃ r'' rows'', storeOneByOne now ws rows = .ok (r'', rows'') ∧ rows''.Perm rows' ∧
      r''.inserted = r.inserted ∧ r''.updated = r.updated ∧ r''.errors.length = r.errors.length := by
  obtain ⟨valid, fresh, screened, made, rfl, inserted, total⟩ := storeOneByOne_eq_ok_iff.mp h
  obtain ⟨valid', errors, screened'⟩ : ∃ valid' errors, screen 0 ws = .ok (valid', errors) :=
    (exists_screen_eq_ok 0).mpr fun v hv =>
      (exists_screen_eq_ok 0).mp ⟨valid, r.errors, screened⟩ v (same.perm.mem_iff.mp hv)
  have perm : valid'.Perm valid := by
    rw [screen_valid screened, screen_valid screened']
    exact same.perm.filterMap _
  have each : ∀ f, (valid'.filter fun item => item.1 = f) = valid.filter fun item => item.1 = f := by
    intro f
    rw [screen_valid screened, screen_valid screened', filter_accepted, filter_accepted, same.each]
  obtain ⟨fresh', made', fresh_perm⟩ :=
    List.perm_comp_forall₂ (unknown_perm each) (mapM_eq_ok.mp made)
  have written : refresh now (valid'.map Prod.fst) rows = refresh now (valid.map Prod.fst) rows := by
    unfold refresh
    simp only [(perm.map Prod.fst).mem_iff]
  have reported : errors.length = r.errors.length := by
    have whole := (screen_eq_ok screened).2.2
    have whole' := (screen_eq_ok screened').2.2
    have kept := perm.length_eq
    have all := same.perm.length_eq
    omega
  refine ⟨⟨r.inserted, r.updated, errors⟩, refresh now (valid'.map Prod.fst) rows ++ fresh',
    storeOneByOne_eq_ok_iff.mpr ⟨valid', fresh', screened', mapM_eq_ok.mpr made', rfl, ?_, ?_⟩,
    ?_, rfl, rfl, reported⟩
  · rw [inserted, fresh_perm.length_eq]
  · rw [total, perm.length_eq]
  · rw [written]
    exact fresh_perm.append_left _

/-! ### The main theorem -/

/-- violations that are storable can be screened -/
theorem exists_screen_of_isStorable (storable : ∀ v ∈ vs, v.IsStorable) :
    ∃ valid errors, screen 0 vs = .ok (valid, errors) := by
  refine (exists_screen_eq_ok 0).mpr fun v hv => ?_
  obtain ⟨problems, told⟩ := (storable v hv).told
  exact ⟨problems, told, fun _ => Violation.exists_fingerprint_eq_ok (storable v hv).texts⟩

/-- of storable violations, each that screening keeps can be written -/
theorem exists_newRow_of_screen {index : Nat} {errors : List String} (storable : ∀ v ∈ vs, v.IsStorable)
    (screened : screen index vs = .ok (valid, errors)) (hitem : item ∈ valid) (now : Instant) :
    ∃ row, newRow now item.1 item.2 = .ok row := by
  obtain ⟨hv, clean, -⟩ := clean_of_mem_screen screened hitem
  exact (exists_newRow_eq_ok_iff clean (storable _ hv).texts.2.1.isPart).mpr (storable _ hv).isEnterable

/-- violations that can all be stored one by one -/
theorem exists_storeOneByOne_eq_ok (now : Instant) (rows : List ViolationRow)
    (storable : ∀ v ∈ vs, v.IsStorable) : ∃ done, storeOneByOne now vs rows = .ok done := by
  obtain ⟨valid, errors, screened⟩ := exists_screen_of_isStorable storable
  have writable : ∀ item ∈ unknown (printsOf rows) valid, ∃ row, newRow now item.1 item.2 = .ok row := by
    intro item hitem
    have kept : item ∈ valid := List.mem_of_mem_filter ((distinctBy_sublist _ _).subset hitem)
    exact exists_newRow_of_screen storable screened kept now
  obtain ⟨fresh, made⟩ := exists_mapM_eq_ok.mpr writable
  have bounded : fresh.length ≤ valid.length := by
    rw [← (mapM_eq_ok.mp made).length_eq]
    exact (distinctBy_sublist _ _).length_le.trans (List.length_filter_le _ _)
  exact ⟨(⟨fresh.length, valid.length - fresh.length, errors⟩, _), storeOneByOne_eq_ok_iff.mpr
    ⟨valid, fresh, screened, made, rfl, rfl, by dsimp only; omega⟩⟩

/-- a violation that is reported, among others that share fingerprints -/
def jumbled : List Violation :=
  [sample, { sample with line := .int 0 }, { sample with line := .int 2 }, sample]

theorem jumbled_isStorable : ∀ v ∈ jumbled, v.IsStorable := by
  have each : ∀ line : Int, fits line = true → ({ sample with line := .int line } : Violation).IsStorable := by
    intro line hline
    refine ⟨⟨_, rfl⟩, ⟨trivial, trivial, trivial⟩, fun i hi => ?_, fun i hi => by cases hi⟩
    cases hi
    exact hline
  simp only [jumbled, List.forall_mem_cons, List.not_mem_nil, false_imp_iff, implies_true, and_true]
  exact ⟨each 1 (by decide), each 0 (by decide), each 2 (by decide), each 1 (by decide)⟩

end Store

end LintLedger
