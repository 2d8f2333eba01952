import LintLedger.Proofs.Store.Delta
import LintLedger.Proofs.Store.Storable
import Mathlib

/-!
# What is given and what is active, parted

A check compares the fingerprints that it is given with those that are active.  Whatever repeats among the
given ones and whatever is resolved in the store, each fingerprint of either side comes into one of three
lists and comes there once (`Delta.Parts`): that is so of any two lists of which the one is taken without
its repetitions and the other comes in increasing order (`between_parts`).  The change is written down by
rows behind those that are there (`deltas_partition`).  Only where there is something to write down under a
number that no column holds does the request fail (`check_beyond_column`).
-/

namespace LintLedger

open Outcome

namespace Delta

/-- what is given and what is active, parted: each fingerprint is in one list, once, those that are given in
the order in which they come first and those that are gone in increasing order -/
structure Parts (given active : List String) (d : Delta) : Prop where
  once : (d.added ++ d.removed ++ d.unchanged).Nodup
  covers : ∀ f, f ∈ d.added ++ d.removed ++ d.unchanged ↔ f ∈ given ∨ f ∈ active
  added : ∀ f, f ∈ d.added ↔ f ∈ given ∧ f ∉ active
  unchanged : ∀ f, f ∈ d.unchanged ↔ f ∈ given ∧ f ∈ active
  removed : ∀ f, f ∈ d.removed ↔ f ∈ active ∧ f ∉ given
  addedInTurn : d.added.Pairwise fun f g => given.idxOf f < given.idxOf g
  unchangedInTurn : d.unchanged.Pairwise fun f g => given.idxOf f < given.idxOf g
  removedAscending : d.removed.Pairwise (· < ·)

variable {given active previous : List String} {d : Delta}

/-- what is given without its repetitions is parted from what was active in increasing order -/
theorem between_parts (same : ∀ f, f ∈ previous ↔ f ∈ active) (ascending : previous.Pairwise (· < ·)) :
    (between previous (distinct given)).Parts given active := by
  have inTurn : (distinct given).Pairwise fun f g => given.idxOf f < given.idxOf g := by
    have begins := pairwise_beginsAt id given
    simp only [beginsAt_id, id] at begins
    exact begins
  have apart : previous.Nodup := by
    refine ascending.imp ?_
    rintro f _ before rfl
    exact String.lt_irrefl f before
  have added : ∀ f, f ∈ (between previous (distinct given)).added ↔ f ∈ given ∧ f ∉ active := fun f => by
    rw [mem_between.1, mem_distinct, same]
  have removed : ∀ f, f ∈ (between previous (distinct given)).removed ↔ f ∈ active ∧ f ∉ given := fun f => by
    rw [mem_between.2.1, mem_distinct, same]
  have unchanged : ∀ f, f ∈ (between previous (distinct given)).unchanged ↔ f ∈ given ∧ f ∈ active :=
    fun f => by rw [mem_between.2.2, mem_distinct, same]
  refine ⟨?_, fun f => ?_, added, unchanged, removed, inTurn.filter _, inTurn.filter _, ascending.filter _⟩
  · rw [← map_entries]
    exact nodup_entries apart (nodup_distinct given)
  · rw [List.mem_append, List.mem_append, added, removed, unchanged]
    tauto

/-- there is nothing to say just if nothing is given and nothing is active -/
theorem Parts.entries_eq_nil_iff (h : d.Parts given active) : d.entries = [] ↔ given = [] ∧ active = [] := by
  rw [← List.map_eq_nil_iff (f := Prod.snd), map_entries, List.eq_nil_iff_forall_not_mem,
    List.eq_nil_iff_forall_not_mem, List.eq_nil_iff_forall_not_mem, ← forall_and]
  exact forall_congr' fun f => by rw [h.covers, not_or]

end Delta

namespace Store

variable {s : Store} {rows : List ViolationRow} {history : List HistoryRow}

theorem wholeColumn_of_not_fits {i : Int} (large : ¬ fits i) : wholeColumn i = .error .beyondStore :=
  if_neg large

theorem countColumn_of_not_fits {action : StoreAction} {i : Int} (large : ¬ fits i) :
    countColumn action (.int i) = .error .beyondStore := by
  have refused : countColumn? action (.int i) = .error .beyondStore := by
    change (wholeColumn i).map some = _
    rw [wholeColumn_of_not_fits large]
    rfl
  unfold countColumn
  rw [refused]
  rfl

/-- a change is written down under a number that fits, and any other is refused; only if there is nothing to
write down is the number not looked at -/
theorem recordDeltas_eq {check : Int} {prints : List String} {now : Instant} {d : Delta}
    (known : s.violations = some rows) (kept : s.history = some history)
    (change : d = Delta.between (activeFingerprints rows) (distinct prints)) :
    recordDeltas now (.int check) prints s =
      if fits check ∨ d.entries = [] then
        .ok (d, { s with history := some (history ++ historyOf now check history d) })
      else .error .beyondStore := by
  unfold recordDeltas
  dsimp only
  rw [need_eq_ok.mpr known, need_eq_ok.mpr kept]
  dsimp only [bind, Except.bind]
  rw [← change]
  by_cases none : d.entries = []
  · have nothing : historyOf now check history d = [] := by
      unfold historyOf
      rw [none]
      rfl
    rw [if_pos (List.isEmpty_iff.mpr none), if_pos (.inr none), nothing, List.append_nil, ← kept]
    rfl
  · rw [if_neg fun empty => none (List.isEmpty_iff.mp empty)]
    by_cases fit : fits check = true
    · rw [countColumn_of_fits fit, if_pos (.inl fit)]
      rfl
    · rw [countColumn_of_not_fits fit, if_neg (not_or_intro fit none)]

/-- **Deltas part what is given and what is active, and only append.** Whatever is in the tables of a store,
a change is recorded just if the number of its check fits its column, or if there is nothing to record.
Then it parts the fingerprints that are given, repetitions or not, and those that are active.  Nothing but
the history is changed, and what was there of it stays; behind it comes one row for each fingerprint of the
three lists, with what is said of it, under the number of the check, at the moment of the request and under
a new number of its own. -/
theorem deltas_partition (known : s.violations = some rows) (apart : (printsOf rows).Nodup)
    (kept : s.history = some history) (check : Int) (prints : List String) (now : Instant) :
    ((∃ d t, recordDeltas now (.int check) prints s = .ok (d, t)) ↔
      fits check ∨ prints = [] ∧ rows.filter (·.isActive) = []) ∧
    ∀ d t, recordDeltas now (.int check) prints s = .ok (d, t) →
      d.Parts prints (printsOf (rows.filter (·.isActive))) ∧
      ∃ new, t = { s with history := some (history ++ new) } ∧
        new.map (fun h => (h.action, h.fingerprint)) = d.entries ∧
        (∀ h ∈ new, h.check = check ∧ h.recordedAt = now ∧ ∀ r ∈ history, r.id < h.id) ∧
        new.Pairwise fun h h' => h.id < h'.id := by
  have parts : (Delta.between (activeFingerprints rows) (distinct prints)).Parts prints
      (printsOf (rows.filter (·.isActive))) :=
    Delta.between_parts (fun _ => mem_activeFingerprints) (pairwise_activeFingerprints apart)
  have nothing : (Delta.between (activeFingerprints rows) (distinct prints)).entries = [] ↔
      prints = [] ∧ rows.filter (·.isActive) = [] := by
    rw [parts.entries_eq_nil_iff]
    exact and_congr_right fun _ => List.map_eq_nil_iff
  rw [recordDeltas_eq known kept rfl, ← nothing]
  constructor
  · split
    · rename_i writable
      exact iff_of_true ⟨_, _, rfl⟩ writable
    · rename_i refused
      exact iff_of_false (by rintro ⟨d, t, ⟨⟩⟩) refused
  · intro d t h
    split at h
    · cases h
      refine ⟨parts, _, rfl, map_historyOf, fun h hh => ?_, pairwise_numbered fun _ _ => rfl⟩
      exact ⟨check_of_mem_historyOf hh, recordedAt_of_mem_historyOf hh,
        fun r hr => lt_of_mem_numbered (fun _ _ => rfl) hr hh⟩
    · cases h

/-- the row of a violation that was found once -/
def rowOf (fingerprint : String) : ViolationRow :=
  ⟨fingerprint, "a.ts", 1, none, "x", "x", "code-quality", "warn", "custom", none, none, ⟨1⟩, ⟨1⟩,
    none, .active⟩

/-- a store in which two violations are active and one between them is resolved -/
def mixed : Store :=
  { Store.empty with
    violations := some [rowOf "a", (rowOf "b").resolve ⟨2⟩ ["b"], rowOf "c"]
    history := some [⟨4, 2, "a", .added, ⟨1⟩⟩] }

theorem deltas_partition_mixed : ∃ d t, recordDeltas ⟨9⟩ (.int 7) ["x", "c", "x", "b"] mixed = .ok (d, t) ∧
    "x" ∈ d.added ∧ "b" ∈ d.added ∧ "a" ∈ d.removed ∧ "c" ∈ d.unchanged ∧
    (d.added ++ d.removed ++ d.unchanged).Nodup ∧ t.violations = mixed.violations := by
  have known : mixed.violations = some [rowOf "a", (rowOf "b").resolve ⟨2⟩ ["b"], rowOf "c"] := rfl
  have kept : mixed.history = some [⟨4, 2, "a", .added, ⟨1⟩⟩] := rfl
  obtain ⟨writable, parted⟩ := deltas_partition known (by decide) kept 7 ["x", "c", "x", "b"] ⟨9⟩
  obtain ⟨d, t, done⟩ := writable.mpr (.inl (by decide))
  obtain ⟨parts, new, rfl, -⟩ := parted d t done
  exact ⟨d, _, done, (parts.added "x").mpr (by decide), (parts.added "b").mpr (by decide),
    (parts.removed "a").mpr (by decide), (parts.unchanged "c").mpr (by decide), parts.once, rfl⟩

/-- the number of a check that is greater than any column holds keeps a change from being recorded -/
theorem check_beyond_column :
    ¬ ∃ d t, recordDeltas ⟨1⟩ (.int 9223372036854775808) ["x"] Store.empty = .ok (d, t) := by
  rintro ⟨d, t, done⟩
  have refused : (recordDeltas ⟨1⟩ (.int 9223372036854775808) ["x"] Store.empty).isOk = false := by
    decide +kernel
  rw [done] at refused
  cases refused

end Store

end LintLedger
