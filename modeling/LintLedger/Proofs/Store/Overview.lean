import LintLedger.Proofs.Distinct
import LintLedger.Proofs.Store.Tables
import Mathlib

/-!
# Overviews that agree

The active violations are counted along several ways: by groups of what they have in common, name by name on
the board, and status by status.  Of a summary it is told what it says of the rows (`IsSummary`), and from
that alone that its counts add up to all that are active (`IsSummary.sum_count`); a tally of names has as many
as the items it was made of (`Tally.total_tallyItems`), and of each name as many as there are rows that bear it
(`IsSummary.count_tallyItems`).  So all ways end at the same number (`overviews_agree`).
-/

namespace LintLedger

open Outcome

/-! ### The first and the last of some moments -/

namespace Instant

/-- of a moment and others, what is preferred to all that came before it is one of them and preferred to all -/
theorem foldl_prefers {R : Instant → Instant → Prop} [IsPreorder Instant R] {pick : Instant → Instant → Instant}
    (cases : ∀ a b, pick a b = a ∧ R a b ∨ pick a b = b ∧ R b a) (start : Instant) (times : List Instant) :
    times.foldl pick start ∈ start :: times ∧ ∀ t ∈ start :: times, R (times.foldl pick start) t := by
  induction times generalizing start with
  | nil => exact ⟨List.mem_singleton_self _, fun t ht => List.mem_singleton.mp ht ▸ Std.Refl.refl t⟩
  | cons t rest ih =>
    obtain ⟨mem, best⟩ := ih (pick start t)
    have picked := best (pick start t) List.mem_cons_self
    have later : ∀ u ∈ rest, R (rest.foldl pick (pick start t)) u := fun u hu => best u (List.mem_cons_of_mem _ hu)
    rw [List.foldl_cons]
    rcases cases start t with ⟨same, before⟩ | ⟨same, before⟩
    · rw [same] at mem picked later ⊢
      refine ⟨?_, List.forall_mem_cons.mpr ⟨picked, List.forall_mem_cons.mpr ⟨?_, later⟩⟩⟩
      · rcases List.mem_cons.mp mem with own | other
        · rw [own]
          exact List.mem_cons_self
        · exact List.mem_cons_of_mem _ (List.mem_cons_of_mem _ other)
      · exact IsTrans.trans _ _ _ picked before
    · rw [same] at mem picked later ⊢
      refine ⟨List.mem_cons_of_mem _ mem, List.forall_mem_cons.mpr ⟨?_, List.forall_mem_cons.mpr ⟨picked, later⟩⟩⟩
      exact IsTrans.trans _ _ _ picked before

theorem earlier_cases (a b : Instant) : earlier a b = a ∧ a ≤ b ∨ earlier a b = b ∧ b ≤ a := by
  unfold earlier
  split
  · exact .inr ⟨rfl, Nat.le_of_lt ‹_›⟩
  · exact .inl ⟨rfl, Nat.le_of_not_lt ‹_›⟩

theorem later_cases (a b : Instant) : later a b = a ∧ a ≥ b ∨ later a b = b ∧ b ≥ a := by
  unfold later
  split
  · exact .inr ⟨rfl, Nat.le_of_lt ‹_›⟩
  · exact .inl ⟨rfl, Nat.le_of_not_lt ‹_›⟩

theorem isLeast_foldl_earlier (start : Instant) (times : List Instant) :
    IsLeast {t | t ∈ start :: times} (times.foldl earlier start) :=
  foldl_prefers (R := (· ≤ ·)) earlier_cases start times

theorem isGreatest_foldl_later (start : Instant) (times : List Instant) :
    IsGreatest {t | t ∈ start :: times} (times.foldl later start) :=
  foldl_prefers (R := (· ≥ ·)) later_cases start times

end Instant

/-! ### Names with their counts -/

namespace Tally

/-- all that a tally counts, whatever its name -/
def total (t : Tally) : ℕ := (t.map Prod.snd).sum

/-- what a tally counts of a name -/
def count (t : Tally) (name : String) : ℕ := (t.lookup name).getD 0

theorem total_add (t : Tally) (name : String) (n : ℕ) : (t.add name n).total = t.total + n := by
  induction t with
  | nil => simp [add, total]
  | cons entry rest ih =>
    obtain ⟨other, m⟩ := entry
    unfold add
    split
    · simp [total]
      omega
    · simp only [total, List.map_cons, List.sum_cons] at ih ⊢
      omega

theorem count_cons (other wanted : String) (m : ℕ) (t : Tally) :
    count ((other, m) :: t) wanted = if other = wanted then m else t.count wanted := by
  unfold count
  by_cases same : other = wanted
  · simp [same]
  · have missed : (wanted == other) = false := beq_false_of_ne (Ne.symm same)
    rw [List.lookup_cons, missed, if_neg same]

theorem count_add (t : Tally) (name wanted : String) (n : ℕ) :
    (t.add name n).count wanted = t.count wanted + if name = wanted then n else 0 := by
  induction t with
  | nil =>
    rw [add, count_cons]
    exact (Nat.zero_add _).symm
  | cons entry rest ih =>
    obtain ⟨other, m⟩ := entry
    unfold add
    split
    · rename_i found
      rw [count_cons, count_cons, found]
      split <;> rfl
    · rename_i missed
      rw [count_cons, count_cons, ih]
      split
      · rename_i own
        rw [if_neg fun h => missed (own.trans h.symm), Nat.add_zero]
      · rfl

theorem total_tallyItems (start : Tally) (name : SummaryItem → String) (items : List SummaryItem) :
    (tallyItems start name items).total = start.total + totalCount items := by
  induction items generalizing start with
  | nil => rfl
  | cons i rest ih =>
    rw [tallyItems, List.foldl_cons, ← tallyItems, ih, total_add, totalCount, Nat.add_assoc]

theorem count_tallyItems (start : Tally) (name : SummaryItem → String) (items : List SummaryItem) (n : String) :
    (tallyItems start name items).count n = start.count n + totalCount (items.filter fun i => name i = n) := by
  induction items generalizing start with
  | nil => rfl
  | cons i rest ih =>
    rw [tallyItems, List.foldl_cons, ← tallyItems, ih, count_add, List.filter_cons]
    by_cases same : name i = n
    · simp [same, totalCount, Nat.add_assoc]
    · simp [same]

end Tally

/-! ### Groups of violations -/

theorem totalCount_eq (items : List SummaryItem) : totalCount items = (items.map (·.count)).sum := by
  induction items with
  | nil => rfl
  | cons i rest ih => rw [totalCount, ih, List.map_cons, List.sum_cons]

namespace SummaryItem

/-- what the violations of an item have in common -/
def key (i : SummaryItem) : Option String × String × String × String := (i.rule, i.category, i.severity, i.source)

/-- whether an item tells the number, the files and the first and last times of some rows -/
structure Tells (i : SummaryItem) (rows : List ViolationRow) : Prop where
  count : i.count = rows.length
  files : i.files = (rows.map (·.file)).toFinset.card
  firstSeen : IsLeast {t | t ∈ rows.map (·.firstSeen)} i.firstSeen
  lastSeen : IsGreatest {t | t ∈ rows.map (·.lastSeen)} i.lastSeen

theorem ofRows_tells (first : ViolationRow) (rest : List ViolationRow) :
    (ofRows first rest).Tells (first :: rest) where
  count := rfl
  files := length_distinct _
  firstSeen := by
    have same : {t | t ∈ first.firstSeen :: (first :: rest).map (·.firstSeen)} =
        {t | t ∈ (first :: rest).map (·.firstSeen)} := by simp
    exact same ▸ Instant.isLeast_foldl_earlier first.firstSeen ((first :: rest).map (·.firstSeen))
  lastSeen := by
    have same : {t | t ∈ first.lastSeen :: (first :: rest).map (·.lastSeen)} =
        {t | t ∈ (first :: rest).map (·.lastSeen)} := by simp
    exact same ▸ Instant.isGreatest_foldl_later first.lastSeen ((first :: rest).map (·.lastSeen))

end SummaryItem

namespace Store

variable {s : Store} {now : Instant} {rows : List ViolationRow} {items : List SummaryItem}

/-- whether a summary is that of some rows: it has one item for all that share rule, category, severity and
source, and no other items -/
structure IsSummary (rows : List ViolationRow) (items : List SummaryItem) : Prop where
  apart : (items.map SummaryItem.key).Nodup
  occurs : ∀ key, key ∈ items.map SummaryItem.key ↔ ∃ r ∈ rows, itemKey r = key
  tells : ∀ i ∈ items, i.Tells (rows.filter fun r => itemKey r = i.key)

/-- what is summed up are the active violations -/
theorem exists_getSummary (known : s.violations = some rows) :
    ∃ items, getSummary s = .ok items ∧ IsSummary (rows.filter (·.isActive)) items := by
  let active := rows.filter (·.isActive)
  let groups := (distinctBy itemKey active).map fun first =>
    SummaryItem.ofRows first ((active.filter fun r => itemKey r = itemKey first).drop 1)
  have made : getSummary s = .ok (groups.mergeSort SummaryItem.isUpTo) := by
    unfold getSummary
    rw [need_eq_ok.mpr known]
    rfl
  have perm : (groups.mergeSort SummaryItem.isUpTo).Perm groups := List.mergeSort_perm _ _
  have keys : groups.map SummaryItem.key = (distinctBy itemKey active).map itemKey := List.map_map
  refine ⟨_, made, ?_, fun key => ?_, fun i hi => ?_⟩
  · rw [(perm.map _).nodup_iff, keys]
    exact List.pairwise_map.mpr (pairwise_distinctBy itemKey active)
  · rw [(perm.map _).mem_iff, keys, (map_distinctBy_perm itemKey active).mem_iff, List.mem_dedup, List.mem_map]
  · obtain ⟨first, hfirst, rfl⟩ := List.mem_map.mp (perm.mem_iff.mp hi)
    have group : active.filter (fun r => itemKey r = itemKey first) = _ := filter_eq_cons_of_mem_distinctBy hfirst
    exact group ▸ SummaryItem.ofRows_tells first _

/-- what a summary tells of some of its keys is the summary of the rows that have these -/
theorem IsSummary.filter (h : IsSummary rows items) (q : Option String × String × String × String → Bool) :
    IsSummary (rows.filter fun r => q (itemKey r)) (items.filter fun i => q i.key) where
  apart := h.apart.sublist (List.filter_sublist.map _)
  occurs key := by
    have chosen : key ∈ (items.filter fun i => q i.key).map SummaryItem.key ↔
        key ∈ items.map SummaryItem.key ∧ q key = true := by
      rw [List.mem_map, List.mem_map]
      constructor
      · rintro ⟨i, hi, rfl⟩
        obtain ⟨mem, yes⟩ := List.mem_filter.mp hi
        exact ⟨⟨i, mem, rfl⟩, yes⟩
      · rintro ⟨⟨i, mem, rfl⟩, yes⟩
        exact ⟨i, List.mem_filter.mpr ⟨mem, yes⟩, rfl⟩
    rw [chosen, h.occurs]
    constructor
    · rintro ⟨⟨r, hr, rfl⟩, yes⟩
      exact ⟨r, List.mem_filter.mpr ⟨hr, yes⟩, rfl⟩
    · rintro ⟨r, hr, rfl⟩
      obtain ⟨mem, yes⟩ := List.mem_filter.mp hr
      exact ⟨⟨r, mem, rfl⟩, yes⟩
  tells i hi := by
    obtain ⟨mem, yes⟩ := List.mem_filter.mp hi
    have group : (rows.filter fun r => q (itemKey r)).filter (fun r => itemKey r = i.key) =
        rows.filter fun r => itemKey r = i.key := by
      rw [List.filter_filter]
      refine List.filter_congr fun r _ => ?_
      by_cases same : itemKey r = i.key
      · simp [same, yes]
      · simp [same]
    rw [group]
    exact h.tells i mem

/-- the numbers that a summary tells add up to all that is summed up -/
theorem IsSummary.sum_count (h : IsSummary rows items) : (items.map (·.count)).sum = rows.length := by
  have counts : items.map (·.count) =
      (items.map SummaryItem.key).map fun k => rows.countP fun r => itemKey r = k := by
    rw [List.map_map]
    refine List.map_congr_left fun i hi => ?_
    rw [(h.tells i hi).count, ← List.countP_eq_length_filter]
    rfl
  rw [counts, sum_countP_eq_length h.apart h.occurs]

/-- the items of a summary, counted by a part of what their rows share, are these rows counted so -/
theorem IsSummary.count_tallyItems (h : IsSummary rows items) (start : Tally)
    (part : Option String × String × String × String → String) (n : String) :
    (tallyItems start (fun i => part i.key) items).count n =
      start.count n + rows.countP fun r => part (itemKey r) = n := by
  rw [Tally.count_tallyItems, totalCount_eq, (h.filter fun k => part k = n).sum_count,
    List.countP_eq_length_filter]

/-! ### The board -/

theorem exists_getHistory (kept : s.history.isSome) (limit : Int) :
    ∃ page, getHistory {} { limit := limit } s = .ok page := by
  obtain ⟨history, known⟩ := Option.isSome_iff_exists.mp kept
  have start : fits ((0 : ℕ) : ℤ) = true := by decide
  have shown : ∀ rows : List HistoryRow, viewed { limit := limit } rows = .ok (Window.view { limit := limit } rows) :=
    fun _ => if_pos start
  unfold getHistory
  rw [need_eq_ok.mpr known, ok_bind, shown]
  exact ⟨_, rfl⟩

theorem exists_getPerformance (schedules : s.schedules.isSome) (checks : s.checks.isSome) :
    ∃ items, getPerformance s = .ok items := by
  obtain ⟨schedules, hschedules⟩ := Option.isSome_iff_exists.mp schedules
  obtain ⟨checks, hchecks⟩ := Option.isSome_iff_exists.mp checks
  unfold getPerformance
  rw [need_eq_ok.mpr hschedules, need_eq_ok.mpr hchecks]
  exact ⟨_, rfl⟩

/-- a board shows nothing but what the summary tells, name by name as well, and the files -/
theorem exists_getDashboard (h : s.IsWhole) (known : s.violations = some rows) (summed : getSummary s = .ok items)
    (limit : Int) : ∃ board, getDashboard limit s = .ok board ∧ board.summary = items ∧
      board.active = totalCount items ∧
      board.bySeverity = tallyItems [("error", 0), ("warn", 0), ("info", 0)] (·.severity) items ∧
      board.bySource = tallyItems [] (·.source) items ∧ board.byCategory = tallyItems [] (·.category) items ∧
      board.files = ((rows.filter (·.isActive)).map (·.file)).toFinset.card := by
  obtain ⟨checks, hchecks⟩ := Option.isSome_iff_exists.mp h.checks
  obtain ⟨page, listed⟩ := exists_getHistory h.history limit
  obtain ⟨performance, performed⟩ := exists_getPerformance h.schedules h.checks
  unfold getDashboard
  rw [summed, ok_bind, performed, ok_bind, listed, ok_bind, need_eq_ok.mpr known, ok_bind, need_eq_ok.mpr hchecks,
    ok_bind]
  exact ⟨_, rfl, rfl, rfl, rfl, rfl, rfl, length_distinct _⟩

theorem exists_getStats (h : s.IsWhole) (known : s.violations = some rows) : ∃ stats, getStats s = .ok stats ∧
    stats.violations = rows.length ∧ (stats.active = rows.countP fun r => r.status = .active) ∧
      stats.resolved = rows.countP fun r => r.status = .resolved := by
  obtain ⟨history, hhistory⟩ := Option.isSome_iff_exists.mp h.history
  obtain ⟨checks, hchecks⟩ := Option.isSome_iff_exists.mp h.checks
  obtain ⟨metrics, hmetrics⟩ := Option.isSome_iff_exists.mp h.metrics
  unfold getStats
  rw [need_eq_ok.mpr known, need_eq_ok.mpr hchecks, need_eq_ok.mpr hhistory, need_eq_ok.mpr hmetrics]
  exact ⟨_, rfl, rfl, rfl, rfl⟩

/-- a violation is active or resolved -/
theorem countP_active_add_resolved (rows : List ViolationRow) :
    (rows.countP fun r => r.status = .active) + (rows.countP fun r => r.status = .resolved) = rows.length := by
  rw [List.length_eq_countP_add_countP (fun r => r.status = .active)]
  refine congrArg (_ + ·) (List.countP_congr fun r _ => ?_)
  cases r.status <;> decide

/-- **The overviews agree.** Of any store that comes about from an empty one, a summary, a board and the numbers
of rows can be had.  The items of the summary differ in rule, category, severity or source, they are those that
active violations have in common, and each tells how many these are, in how many files, and when the first of
them was first seen and the last of them last.  The board shows this summary; its number of active violations is
the sum of the counts of the items, of those by severity, by source and by category, each of which is right name
by name, and that among the numbers of rows.  It counts the files that active violations are in, and the rows of
violations are those that are active and those that are resolved. -/
theorem overviews_agree (h : Reached s now) (historyLimit : Int) :
    ∃ rows active items board stats, s.violations = some rows ∧ active = rows.filter (·.status = .active) ∧
      getSummary s = .ok items ∧ getDashboard historyLimit s = .ok board ∧ getStats s = .ok stats ∧
      IsSummary active items ∧ board.summary = items ∧
      board.active = (items.map (·.count)).sum ∧ board.active = board.bySeverity.total ∧
      board.active = board.bySource.total ∧ board.active = board.byCategory.total ∧
      board.active = stats.active ∧ board.active = active.length ∧
      (∀ name, board.bySeverity.count name = active.countP (·.severity = name)) ∧
      (∀ name, board.bySource.count name = active.countP (·.source = name)) ∧
      (∀ name, board.byCategory.count name = active.countP (·.category = name)) ∧
      board.files = (active.map (·.file)).toFinset.card ∧
      stats.violations = stats.active + stats.resolved ∧ stats.violations = rows.length := by
  have whole := h.isWhole
  obtain ⟨rows, known⟩ := Option.isSome_iff_exists.mp whole.violations
  obtain ⟨items, summed, summary⟩ := exists_getSummary known
  obtain ⟨board, shown, own, total, bySeverity, bySource, byCategory, files⟩ :=
    exists_getDashboard whole known summed historyLimit
  obtain ⟨stats, counted, all, actives, resolved⟩ := exists_getStats whole known
  have sum : totalCount items = (rows.filter (·.isActive)).length := by
    rw [totalCount_eq, summary.sum_count]
  have none : ∀ name, Tally.count [("error", 0), ("warn", 0), ("info", 0)] name = 0 := fun name => by
    simp only [Tally.count_cons, ite_eq_left_iff]
    exact fun _ _ _ => rfl
  refine ⟨rows, _, items, board, stats, known, rfl, summed, shown, counted, summary, own, ?_, ?_, ?_, ?_, ?_, ?_,
    fun name => ?_, fun name => ?_, fun name => ?_, files, ?_, all⟩
  · rw [total, totalCount_eq]
  · rw [total, bySeverity, Tally.total_tallyItems]
    exact (Nat.zero_add _).symm
  · rw [total, bySource, Tally.total_tallyItems]
    exact (Nat.zero_add _).symm
  · rw [total, byCategory, Tally.total_tallyItems]
    exact (Nat.zero_add _).symm
  · rw [total, sum, actives, List.countP_eq_length_filter]
    rfl
  · rw [total, sum]
    rfl
  · have each := summary.count_tallyItems [("error", 0), ("warn", 0), ("info", 0)] (·.2.2.1) name
    rw [none, Nat.zero_add] at each
    rw [bySeverity]
    exact each
  · rw [bySource]
    exact (summary.count_tallyItems [] (·.2.2.2) name).trans (Nat.zero_add _)
  · rw [byCategory]
    exact (summary.count_tallyItems [] (·.2.1) name).trans (Nat.zero_add _)
  · rw [all, actives, resolved, countP_active_add_resolved]

/-- a store in which one violation was resolved and three others came later, two of them alike -/
def crowdedStore : Store :=
  (respond {} (.still ⟨3⟩) settledStore (.store
    [{ sample with line := .int 2 }, { sample with line := .int 3 },
      { sample with file := .text "b.ts", rule := .text "r" }])).2

theorem crowdedStore_reached : Reached crowdedStore ⟨3⟩ :=
  .step settledStore_reached
    ⟨fun _ => Nat.le_succ 2, fun _ => le_refl _, fun _ _ _ => le_refl _⟩ (.answered _)

/-- three violations are active in two files, and an item of the summary has the rule of one of them -/
theorem overviews_agree_crowded :
    Reached crowdedStore ⟨3⟩ ∧ ∃ items board stats, getSummary crowdedStore = .ok items ∧
      getDashboard 20 crowdedStore = .ok board ∧ getStats crowdedStore = .ok stats ∧
      (some "r", "code-quality", "warn", "custom") ∈ items.map SummaryItem.key ∧
      (items.map (·.count)).sum = 3 ∧ board.bySource.total = 3 ∧ board.byCategory.count "code-quality" = 3 ∧
      board.files = 2 ∧ stats.violations = 4 := by
  obtain ⟨rows, active, items, board, stats, known, own, summed, shown, counted, summary, -, sum, -, bySource, -, -,
    number, -, -, byCategory, files, -, all⟩ := overviews_agree crowdedStore_reached 20
  have evaluated : crowdedStore.violations.map (fun rows =>
      let active := rows.filter (·.status = .active)
      (rows.length, active.length, active.countP (·.category = "code-quality"), (active.map (·.file)).toFinset.card,
        active.any (itemKey · = (some "r", "code-quality", "warn", "custom")))) = some (4, 3, 3, 2, true) := by
    decide +kernel
  rw [known, Option.map_some, ← own] at evaluated
  simp only [Option.some.injEq, Prod.mk.injEq, List.any_eq_true, decide_eq_true_eq] at evaluated
  obtain ⟨rows4, active3, category3, files2, keyed⟩ := evaluated
  refine ⟨crowdedStore_reached, items, board, stats, summed, shown, counted, (summary.occurs _).mpr keyed, ?_, ?_, ?_,
    ?_, ?_⟩
  · rw [← sum, number, active3]
  · rw [← bySource, number, active3]
  · rw [byCategory, category3]
  · rw [files, files2]
  · rw [all, rows4]

end Store

end LintLedger
