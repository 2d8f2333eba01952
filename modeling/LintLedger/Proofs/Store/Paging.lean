import LintLedger.Proofs.Order.Stable
import LintLedger.Proofs.Store.Changes
import LintLedger.Proofs.Store.Upsert
import Mathlib

/-!
# Lists read page by page

A list that is read page by page, each page as long as is asked for and up to the first that is shorter, is
read whole (`pages_viewed_iff`): no page is cut shorter than was asked, since none is longer than a thousand
rows, and each begins where the last has ended.  What is listed are the rows that are asked for
(`ViolationFilter.accepts_iff`, `HistoryFilter.accepts_iff`), in an order in which no two rows are tied, since
violations differ in their fingerprints and rows of history in their numbers.
-/

namespace LintLedger

open Outcome

/-! ### Pages -/

/-- whether some rows are what comes of reading a list from a place on, page by page up to the first that is
shorter than was asked for -/
inductive Pages {α : Type} (list : Window → Except Failure (List α)) (size : ℕ) : ℕ → List α → Prop
  | last {place : ℕ} {page : List α} (read : list ⟨size, place⟩ = .ok page) (short : page.length < size) :
      Pages list size place page
  | more {place : ℕ} {page rest : List α} (read : list ⟨size, place⟩ = .ok page) (full : page.length = size)
      (later : Pages list size (place + size) rest) : Pages list size place (page ++ rest)

namespace Store

/-- how many rows a table can have at most: they are numbered with 64 bits -/
def mostRows : ℕ := Decimal.twoTo 63

section Pages

variable {α : Type} {rows all : List α} {size place : ℕ}

/-- a page of no more than a thousand rows is as long as was asked for, if there are as many rows left -/
theorem viewed_eq (most : size ≤ 1000) (countable : rows.length < mostRows) (within : place ≤ rows.length) :
    viewed ⟨size, place⟩ rows = .ok ((rows.drop place).take size) := by
  have placed : fits (Window.skipped ⟨size, place⟩) = true := by
    unfold mostRows at countable
    unfold fits Window.skipped
    rw [Bool.and_eq_true, decide_eq_true_iff, decide_eq_true_iff]
    dsimp only
    omega
  have shown : Window.size ⟨size, place⟩ = size := by
    simp only [Window.size, Window.longest]
    omega
  unfold viewed Window.view
  rw [if_pos placed, shown]
  rfl

theorem pages_drop (some : 1 ≤ size) (most : size ≤ 1000) (countable : rows.length < mostRows)
    (within : place ≤ rows.length) : Pages (viewed · rows) size place (rows.drop place) := by
  induction left : rows.length - place using Nat.strong_induction_on generalizing place with
  | _ left' ih =>
    have read := viewed_eq most countable within
    by_cases full : place + size ≤ rows.length
    · rw [← List.take_append_drop size (rows.drop place), List.drop_drop]
      refine .more read ?_ (ih _ ?_ full rfl)
      · rw [List.length_take, List.length_drop]
        omega
      · omega
    · -- what is left does not fill a page
      have short : (rows.drop place).length < size := by
        rw [List.length_drop]
        omega
      rw [List.take_of_length_le short.le] at read
      exact .last read short

/-- a list is read to its end and in one way only -/
theorem pages_viewed_iff (some : 1 ≤ size) (most : size ≤ 1000) (countable : rows.length < mostRows)
    (within : place ≤ rows.length) : Pages (viewed · rows) size place all ↔ all = rows.drop place := by
  constructor
  · intro pages
    induction pages with
    | last read short =>
      rw [viewed_eq most countable within] at read
      cases read
      rw [List.length_take, List.length_drop] at short
      exact List.take_of_length_le (by rw [List.length_drop]; omega)
    | more read full later ih =>
      rw [viewed_eq most countable within] at read
      cases read
      rw [List.length_take, List.length_drop] at full
      rw [ih (by omega), ← List.drop_drop, List.take_append_drop]
  · rintro rfl
    exact pages_drop some most countable within

/-- a list is read whole if its rows are put in order by keys that no two of them share -/
theorem exists_pages {κ : Type} [LinearOrder κ] {key : α → κ} {le : α → α → Bool} {p : α → Bool}
    (some : 1 ≤ size) (most : size ≤ 1000) (countable : rows.length < mostRows)
    (compares : ∀ a b, le a b = true ↔ key a ≤ key b) (apart : (rows.map key).Nodup) :
    ∃ all, (∀ read, Pages (viewed · ((rows.filter p).mergeSort le)) size 0 read ↔ read = all) ∧ all.Nodup ∧
      (∀ r, r ∈ all ↔ r ∈ rows ∧ p r = true) ∧ all.Pairwise fun a b => key a < key b := by
  have fewer : ((rows.filter p).mergeSort le).length < mostRows := by
    rw [List.length_mergeSort]
    exact (List.length_filter_le p rows).trans_lt countable
  have distinct : ((rows.filter p).map key).Nodup := apart.sublist (List.filter_sublist.map key)
  refine ⟨(rows.filter p).mergeSort le, fun read => ?_, ?_, fun r => ?_, ?_⟩
  · rw [pages_viewed_iff some most fewer (Nat.zero_le _), List.drop_zero]
  · exact (List.mergeSort_perm _ _).nodup_iff.mpr (.of_map key distinct)
  · rw [List.mem_mergeSort, List.mem_filter]
  · exact Order.pairwise_key_mergeSort compares distinct

end Pages

end Store

/-! ### What is asked for -/

theorem admits_iff {wanted : List String} {name : String} :
    admits wanted name = true ↔ wanted = [] ∨ name ∈ wanted := by
  simp [admits]

/-- whether a violation is all that is asked for -/
structure ViolationFilter.Wants (f : ViolationFilter) (r : ViolationRow) : Prop where
  status : f.statuses = [] ∨ r.status.name ∈ f.statuses
  category : f.categories = [] ∨ r.category ∈ f.categories
  source : f.sources = [] ∨ r.source ∈ f.sources
  severity : f.severities = [] ∨ r.severity ∈ f.severities
  file : f.files = [] ∨ r.file ∈ f.files
  since : ∀ t ∈ f.since, t ≤ r.lastSeen

theorem ViolationFilter.accepts_iff {f : ViolationFilter} {r : ViolationRow} :
    f.accepts r = true ↔ f.Wants r := by
  have since : (f.since.all fun t => t.micros ≤ r.lastSeen.micros) = true ↔ ∀ t ∈ f.since, t ≤ r.lastSeen := by
    rw [Option.all_eq_true]
    exact forall₂_congr fun t _ => decide_eq_true_iff
  unfold accepts
  simp only [Bool.and_eq_true, admits_iff, since]
  constructor
  · rintro ⟨⟨⟨⟨⟨status, category⟩, source⟩, severity⟩, file⟩, since⟩
    exact ⟨status, category, source, severity, file, since⟩
  · rintro ⟨status, category, source, severity, file, since⟩
    exact ⟨⟨⟨⟨⟨status, category⟩, source⟩, severity⟩, file⟩, since⟩

theorem HistoryFilter.accepts_iff {f : HistoryFilter} {r : HistoryRow} : f.accepts r = true ↔
    (∀ t ∈ f.since, t ≤ r.recordedAt) ∧ (∀ t ∈ f.upTo, r.recordedAt ≤ t) ∧
      (f.actions = [] ∨ r.action ∈ f.actions) := by
  unfold accepts
  rw [Bool.and_eq_true, Bool.and_eq_true, Option.all_eq_true, Option.all_eq_true, and_assoc]
  refine and_congr ?_ (and_congr ?_ (by simp))
  · exact forall₂_congr fun t _ => decide_eq_true_iff
  · exact forall₂_congr fun t _ => decide_eq_true_iff

namespace DeltaAction

theorem ofName?_name (a : DeltaAction) : ofName? a.name = some a := by
  cases a <;> rfl

/-- names that are all known stand for the actions that bear them -/
theorem exists_ofNames_eq_ok {names : List String} (known : ∀ n ∈ names, n ∈ all.map name) :
    ∃ actions, ofNames names = .ok actions ∧ (actions = [] ↔ names = []) ∧
      ∀ a, a ∈ actions ↔ a.name ∈ names := by
  have named : ∀ n ∈ names, ∃ a, ofName? n = some a ∧ a.name = n := by
    intro n hn
    obtain ⟨a, -, rfl⟩ := List.mem_map.mp (known n hn)
    exact ⟨a, ofName?_name a, rfl⟩
  have none : names.filter (fun s => (ofName? s).isNone) = [] := by
    refine List.filter_eq_nil_iff.mpr fun n hn => ?_
    obtain ⟨a, ha, -⟩ := named n hn
    simp [ha]
  have actions : ofNames names = .ok (names.filterMap ofName?) := by
    unfold ofNames
    rw [none]
    rfl
  refine ⟨_, actions, ?_, fun a => ?_⟩
  · rw [List.filterMap_eq_nil_iff]
    constructor
    · intro unknown
      refine List.eq_nil_iff_forall_not_mem.mpr fun n hn => ?_
      obtain ⟨a, ha, -⟩ := named n hn
      rw [unknown n hn] at ha
      cases ha
    · rintro rfl
      exact nofun
  · rw [List.mem_filterMap]
    constructor
    · rintro ⟨n, hn, ha⟩
      obtain ⟨b, hb, rfl⟩ := named n hn
      rw [hb] at ha
      cases ha
      exact hn
    · exact fun ha => ⟨a.name, ha, ofName?_name a⟩

end DeltaAction

/-! ### The order of lists -/

/-- whether a violation is listed before another: by file, then by line, then by fingerprint -/
def ViolationRow.Precedes (a b : ViolationRow) : Prop :=
  a.file < b.file ∨ a.file = b.file ∧
    (a.line < b.line ∨ a.line = b.line ∧ a.fingerprint < b.fingerprint)

/-- where a violation stands in a list -/
def ViolationRow.standing (r : ViolationRow) : String ×ₗ ℤ ×ₗ String :=
  toLex (r.file, toLex (r.line, r.fingerprint))

theorem ViolationRow.standing_lt_iff {a b : ViolationRow} : a.standing < b.standing ↔ a.Precedes b := by
  unfold standing Precedes
  rw [Prod.Lex.toLex_lt_toLex, Prod.Lex.toLex_lt_toLex]

instance : DecidableRel ViolationRow.Precedes :=
  fun _ _ => inferInstanceAs (Decidable (_ ∨ _ ∧ (_ ∨ _ ∧ _)))

instance : Std.Asymm ViolationRow.Precedes :=
  ⟨fun _ _ before after =>
    lt_asymm (ViolationRow.standing_lt_iff.mpr before) (ViolationRow.standing_lt_iff.mpr after)⟩

theorem ViolationRow.isUpTo_iff (a b : ViolationRow) : a.isUpTo b = true ↔ a.standing ≤ b.standing := by
  unfold standing isUpTo
  rw [Prod.Lex.toLex_le_toLex, Prod.Lex.toLex_le_toLex, ← String.not_lt]
  simp only [Bool.or_eq_true, Bool.and_eq_true, decide_eq_true_eq, Bool.not_eq_true', decide_eq_false_iff_not]

/-- whether a row of history is newer than another, or as new with a larger number -/
def HistoryRow.Precedes (a b : HistoryRow) : Prop :=
  b.recordedAt < a.recordedAt ∨ a.recordedAt = b.recordedAt ∧ b.id < a.id

/-- where a row of history stands in a list -/
def HistoryRow.standing (r : HistoryRow) : ℕᵒᵈ ×ₗ ℤᵒᵈ :=
  toLex (.toDual r.recordedAt.micros, .toDual r.id)

theorem Instant.micros_inj {a b : Instant} : a.micros = b.micros ↔ a = b :=
  ⟨fun same => congrArg Instant.mk same, congrArg micros⟩

theorem HistoryRow.standing_lt_iff {a b : HistoryRow} : a.standing < b.standing ↔ a.Precedes b := by
  unfold standing Precedes
  rw [Prod.Lex.toLex_lt_toLex, OrderDual.toDual_lt_toDual, OrderDual.toDual_lt_toDual, OrderDual.toDual_inj,
    Instant.micros_inj]
  rfl

instance : DecidableRel HistoryRow.Precedes := fun _ _ => inferInstanceAs (Decidable (_ ∨ _ ∧ _))

instance : Std.Asymm HistoryRow.Precedes :=
  ⟨fun _ _ before after =>
    lt_asymm (HistoryRow.standing_lt_iff.mpr before) (HistoryRow.standing_lt_iff.mpr after)⟩

theorem HistoryRow.isFrom_iff (a b : HistoryRow) : a.isFrom b = true ↔ a.standing ≤ b.standing := by
  unfold standing isFrom
  rw [Prod.Lex.toLex_le_toLex, OrderDual.toDual_lt_toDual, OrderDual.toDual_le_toDual, OrderDual.toDual_inj,
    Instant.micros_inj]
  simp

/-! ### Whole lists -/

namespace Store

variable {s : Store} {size : ℕ}

/-- **Paging loses nothing and repeats nothing.** Read page by page, with one to a thousand rows on each and up
to the first page that is shorter, any list of violations comes to an end, and to just one: all the violations
that are asked for and no others, each once, by file, line and fingerprint.  So does any list of history that
asks for known actions, with the rows of the interval, its ends included, newest first and the larger number
first of those that are as new.  Of a table nothing is asked but what every table has: rows that differ in
their fingerprints or numbers, and fewer than can be numbered. -/
theorem paging_exact (some : 1 ≤ size) (most : size ≤ 1000) (s : Store) :
    (∀ (rows : List ViolationRow) (f : ViolationFilter), s.violations = .some rows → (printsOf rows).Nodup →
      rows.length < mostRows →
      ∃ all, (∀ read, Pages (fun w => getViolations f w s) size 0 read ↔ read = all) ∧ all.Nodup ∧
        (∀ r, r ∈ all ↔ r ∈ rows ∧ f.Wants r) ∧ all.Pairwise ViolationRow.Precedes) ∧
    ∀ (history : List HistoryRow) (since upTo : Option Instant) (names : List String),
      s.history = .some history → (history.map (·.id)).Nodup → history.length < mostRows →
      (∀ n ∈ names, n ∈ DeltaAction.all.map DeltaAction.name) →
      ∃ actions, DeltaAction.ofNames names = .ok actions ∧
      ∃ all, (∀ read, Pages (fun w => getHistory ⟨since, upTo, actions⟩ w s) size 0 read ↔ read = all) ∧
        all.Nodup ∧
        (∀ r, r ∈ all ↔ r ∈ history ∧ (∀ t ∈ since, t ≤ r.recordedAt) ∧ (∀ t ∈ upTo, r.recordedAt ≤ t) ∧
          (names = [] ∨ r.action.name ∈ names)) ∧
        all.Pairwise HistoryRow.Precedes := by
  constructor
  · intro rows f known apart countable
    have listed : ∀ w, getViolations f w s = viewed w ((rows.filter f.accepts).mergeSort ViolationRow.isUpTo) := by
      intro w
      unfold getViolations
      rw [need_eq_ok.mpr known, ok_bind]
    have distinct : (rows.map ViolationRow.standing).Nodup := by
      refine .of_map (fun place => (ofLex (ofLex place).2).2) ?_
      simpa [Function.comp_def, ViolationRow.standing, printsOf] using apart
    obtain ⟨all, pages, nodup, mem, sorted⟩ :=
      exists_pages some most countable ViolationRow.isUpTo_iff distinct
    refine ⟨all, ?_, nodup, fun r => ?_, sorted.imp fun before => ViolationRow.standing_lt_iff.mp before⟩
    · simpa only [listed] using pages
    · rw [mem, ViolationFilter.accepts_iff]
  · intro history since upTo names known apart countable named
    obtain ⟨actions, taken, none, some'⟩ := DeltaAction.exists_ofNames_eq_ok named
    have listed : ∀ w, getHistory ⟨since, upTo, actions⟩ w s =
        viewed w ((history.filter (HistoryFilter.accepts ⟨since, upTo, actions⟩)).mergeSort HistoryRow.isFrom) := by
      intro w
      unfold getHistory
      rw [need_eq_ok.mpr known, ok_bind]
    have distinct : (history.map HistoryRow.standing).Nodup := by
      refine .of_map (fun place => OrderDual.ofDual (ofLex place).2) ?_
      simpa [Function.comp_def, HistoryRow.standing] using apart
    obtain ⟨all, pages, nodup, mem, sorted⟩ :=
      exists_pages some most countable HistoryRow.isFrom_iff distinct
    refine ⟨actions, taken, all, ?_, nodup, fun r => ?_,
      sorted.imp fun before => HistoryRow.standing_lt_iff.mp before⟩
    · simpa only [listed] using pages
    · rw [mem, HistoryFilter.accepts_iff, none, some']

/-- the row of a violation that was found once -/
def rowAt (file : String) (line : Int) (fingerprint : String) : ViolationRow :=
  ⟨fingerprint, file, line, none, "x", "x", "code-quality", "warn", "custom", none, none, ⟨1⟩, ⟨1⟩, none,
    .active⟩

/-- a store with three violations, told of by three rows of history -/
def pagedStore : Store :=
  { Store.empty with
    violations := some [rowAt "b.ts" 1 "a", rowAt "a.ts" 10 "b", rowAt "a.ts" 2 "c"]
    history := some [⟨1, 1, "a", .added, ⟨1⟩⟩, ⟨2, 1, "b", .added, ⟨1⟩⟩, ⟨3, 2, "c", .added, ⟨2⟩⟩] }

/-- two pages of two rows, the second of which is not full, hold three violations and three rows of history;
line 2 comes before line 10, and of two rows of one moment the one with the larger number is first -/
theorem paging_exact_three :
    (∃ all, Pages (fun w => getViolations {} w pagedStore) 2 0 all ∧
      all = [rowAt "a.ts" 2 "c", rowAt "a.ts" 10 "b", rowAt "b.ts" 1 "a"]) ∧
    ∃ all, Pages (fun w => getHistory ⟨none, some ⟨2⟩, [.added]⟩ w pagedStore) 2 0 all ∧
      all = [⟨3, 2, "c", .added, ⟨2⟩⟩, ⟨2, 1, "b", .added, ⟨1⟩⟩, ⟨1, 1, "a", .added, ⟨1⟩⟩] := by
  obtain ⟨violations, history⟩ := paging_exact (show 1 ≤ 2 by decide) (show 2 ≤ 1000 by decide) pagedStore
  constructor
  · obtain ⟨all, pages, -, mem, sorted⟩ := violations _ {} rfl (by decide) (by decide)
    refine ⟨all, (pages all).mpr rfl, sorted.eq_of_mem_iff (by decide) fun r => ?_⟩
    rw [mem, ← ViolationFilter.accepts_iff, ← List.mem_filter]
    exact (show List.Perm _ _ by decide).mem_iff
  · obtain ⟨actions, taken, all, pages, -, mem, sorted⟩ :=
      history _ none (some ⟨2⟩) ["added"] rfl (by decide) (by decide) (by decide)
    have added : DeltaAction.ofNames ["added"] = .ok [.added] := rfl
    cases added.symm.trans taken
    refine ⟨all, (pages all).mpr rfl, sorted.eq_of_mem_iff (by decide) fun r => ?_⟩
    rw [mem, and_iff_left_of_imp (by revert r; decide)]
    exact (show List.Perm _ _ by decide).mem_iff

end Store

end LintLedger
