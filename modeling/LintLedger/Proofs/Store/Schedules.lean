import LintLedger.Proofs.Schedule.Resume
import LintLedger.Proofs.Store.Delta
import Mathlib

/-!
# Schedules in the store

What is kept of the rules of an engine has one row for each rule.  Saving a schedule leaves a row for each
of its rules that says what is known of the rule now, and every other row as it was; so what is loaded
afterwards is all that was saved, and perhaps what was kept of rules that the engine has no more.  A schedule
that has not begun takes that up and is the one that was saved, opened again (`restore_of_saveSchedules`).
-/

namespace LintLedger.Store

open Outcome

variable {s t : Store} {rows rows' : List ScheduleRow} {k : SavedState} {ks : List SavedState}
  {priority : Value}

/-- the key under which something is kept -/
def savedKey (k : SavedState) : EntryKey := ((k.rule.key?).getD .null, .text k.engine)

/-- an entry with its key, as something is kept -/
def keyed (k : SavedState) : EntryKey × ScheduleEntry := (savedKey k, .ofSaved k)

/-- a table of schedules in which no two rows have one key and every rule is enabled -/
structure SoundRows (rows : List ScheduleRow) : Prop where
  distinct : (rows.map rowKey).Nodup
  enabled : ∀ r ∈ rows, r.enabled = true

/-- whether something is kept in a table -/
def IsKept (rows : List ScheduleRow) (k : SavedState) : Prop := ∃ r ∈ rows, r.saved = k

/-- whether what is to be kept bears the name of a rule -/
def IsNamed (k : SavedState) : Prop := ∃ name, k.rule = .text name

/-! ### Rows that are changed -/

/-- changing the row of an entry changes how long its rule has been silent and when it was checked -/
theorem exists_of_updateSchedule {e : EntryKey × ScheduleEntry} (h : updateSchedule rows e = .ok rows') :
    ∃ streak last, rows' = rows.map fun r =>
      if rowKey r = e.1 then { r with zeroStreak := streak, lastChecked := last } else r := by
  obtain ⟨streak, -, h⟩ := bind_eq_ok.mp h
  obtain ⟨last, -, h⟩ := bind_eq_ok.mp h
  cases h
  exact ⟨streak, last, rfl⟩

theorem updateSchedule_eq_ok (h : updateSchedule rows (keyed k) = .ok rows') :
    rows' = rows.map fun r =>
      if rowKey r = savedKey k then { r with zeroStreak := k.zeroStreak, lastChecked := k.lastChecked }
      else r := by
  obtain ⟨streak, hstreak, h⟩ := bind_eq_ok.mp h
  obtain ⟨last, hlast, h⟩ := bind_eq_ok.mp h
  cases h
  obtain rfl := countColumn_int hstreak
  obtain rfl := countColumn_int hlast
  rfl

/-- changing rows keeps their keys, and so a table sound -/
theorem updateSchedule_keeps {e : EntryKey × ScheduleEntry} (h : updateSchedule rows e = .ok rows') :
    rows'.map rowKey = rows.map rowKey ∧ (SoundRows rows → SoundRows rows') := by
  obtain ⟨streak, last, rfl⟩ := exists_of_updateSchedule h
  have keys : (rows.map fun r =>
      if rowKey r = e.1 then { r with zeroStreak := streak, lastChecked := last } else r).map rowKey =
        rows.map rowKey := by
    rw [List.map_map]
    refine List.map_congr_left fun r _ => ?_
    dsimp only [Function.comp]
    split <;> rfl
  refine ⟨keys, fun sound => ⟨keys ▸ sound.distinct, fun r hr => ?_⟩⟩
  obtain ⟨q, hq, rfl⟩ := List.mem_map.mp hr
  split
  · exact sound.enabled q hq
  · exact sound.enabled q hq

/-- what is kept under a key that has a row is kept in that row -/
theorem isKept_of_updateSchedule (named : IsNamed k) (known : savedKey k ∈ rows.map rowKey)
    (h : updateSchedule rows (keyed k) = .ok rows') : IsKept rows' k := by
  obtain rfl := updateSchedule_eq_ok h
  obtain ⟨r, hr, same⟩ := List.mem_map.mp known
  refine ⟨_, List.mem_map.mpr ⟨r, hr, rfl⟩, ?_⟩
  rw [if_pos same]
  obtain ⟨name, rule⟩ := named
  obtain ⟨rule', engine, streak, last⟩ := k
  cases rule
  cases same
  rfl

theorem mem_of_updateSchedule {r : ScheduleRow} (hr : r ∈ rows) (other : rowKey r ≠ savedKey k)
    (h : updateSchedule rows (keyed k) = .ok rows') : r ∈ rows' := by
  obtain rfl := updateSchedule_eq_ok h
  exact List.mem_map.mpr ⟨r, hr, if_neg other⟩

/-- each of some things that are kept under different keys, all of which have rows, is kept in its row -/
theorem foldlM_updateSchedule (named : ∀ k ∈ ks, IsNamed k) (apart : (ks.map savedKey).Nodup)
    (known : ∀ k ∈ ks, savedKey k ∈ rows.map rowKey)
    (h : (ks.map keyed).foldlM updateSchedule rows = .ok rows') :
    rows'.map rowKey = rows.map rowKey ∧ (SoundRows rows → SoundRows rows') ∧
      (∀ r ∈ rows, rowKey r ∉ ks.map savedKey → r ∈ rows') ∧ ∀ k ∈ ks, IsKept rows' k := by
  induction ks generalizing rows with
  | nil =>
    cases h
    exact ⟨rfl, id, fun r hr _ => hr, nofun⟩
  | cons k rest ih =>
    rw [List.map_cons, List.foldlM_cons] at h
    obtain ⟨mid, one, h⟩ := bind_eq_ok.mp h
    rw [List.map_cons, List.nodup_cons] at apart
    obtain ⟨keys, sound⟩ := updateSchedule_keeps one
    obtain ⟨keys', sound', others, kept⟩ := ih (fun l hl => named l (List.mem_cons_of_mem k hl)) apart.2
      (fun l hl => keys ▸ known l (List.mem_cons_of_mem k hl)) h
    refine ⟨keys'.trans keys, sound' ∘ sound, fun r hr other => ?_, fun l hl => ?_⟩
    · rw [List.map_cons, List.mem_cons, not_or] at other
      exact others r (mem_of_updateSchedule hr other.1 one) other.2
    · rcases List.mem_cons.mp hl with rfl | later
      · obtain ⟨r, hr, same⟩ :=
          isKept_of_updateSchedule (named l List.mem_cons_self) (known l List.mem_cons_self) one
        have key : rowKey r = savedKey l := by rw [← same]; rfl
        exact ⟨r, others r hr (key ▸ apart.1), same⟩
      · exact kept l later

/-! ### Rows that are added -/

/-- a row that is added has a key that no row had, and its rule is enabled -/
theorem insertSchedule_sound {e : EntryKey × ScheduleEntry} (sound : SoundRows rows)
    (h : insertSchedule priority rows e = .ok rows') : SoundRows rows' := by
  obtain ⟨rule, -, h⟩ := bind_eq_ok.mp h
  obtain ⟨engine, -, h⟩ := bind_eq_ok.mp h
  obtain ⟨urgency, -, h⟩ := bind_eq_ok.mp h
  obtain ⟨streak, -, h⟩ := bind_eq_ok.mp h
  obtain ⟨last, -, h⟩ := bind_eq_ok.mp h
  dsimp only at h
  split at h
  · cases h
  · rename_i new
    cases h
    refine ⟨?_, fun r hr => ?_⟩
    · rw [List.map_append, List.nodup_append]
      refine ⟨sound.distinct, List.nodup_singleton _, fun key old key' own same => new ?_⟩
      obtain ⟨r, hr, rfl⟩ := List.mem_map.mp old
      rw [List.mem_singleton.mp own] at same
      cases same
      exact List.any_eq_true.mpr ⟨r, hr, by simp⟩
    · rcases List.mem_append.mp hr with old | own
      · exact sound.enabled r old
      · rw [List.mem_singleton.mp own]

/-- what is kept is written into a row of its own -/
theorem insertSchedule_eq_ok (named : IsNamed k) (h : insertSchedule priority rows (keyed k) = .ok rows') :
    ∃ row, rows' = rows ++ [row] ∧ row.saved = k ∧ (SoundRows rows → SoundRows rows') := by
  have sound : SoundRows rows → SoundRows rows' := fun sound => insertSchedule_sound sound h
  obtain ⟨name, rule⟩ := named
  obtain ⟨rule', engine, streak, last⟩ := k
  cases rule
  obtain ⟨rule', hrule, h⟩ := bind_eq_ok.mp h
  obtain ⟨engine', hengine, h⟩ := bind_eq_ok.mp h
  obtain ⟨urgency, -, h⟩ := bind_eq_ok.mp h
  obtain ⟨streak', hstreak, h⟩ := bind_eq_ok.mp h
  obtain ⟨last', hlast, h⟩ := bind_eq_ok.mp h
  cases hrule
  cases hengine
  obtain rfl := countColumn?_int hstreak
  obtain rfl := countColumn?_int hlast
  dsimp only at h
  split at h
  · cases h
  · cases h
    exact ⟨_, rfl, rfl, sound⟩

/-- things that are kept under keys without rows are written into rows of their own -/
theorem foldlM_insertSchedule (named : ∀ k ∈ ks, IsNamed k)
    (h : (ks.map keyed).foldlM (insertSchedule priority) rows = .ok rows') :
    (SoundRows rows → SoundRows rows') ∧ (∀ r ∈ rows, r ∈ rows') ∧ ∀ k ∈ ks, IsKept rows' k := by
  induction ks generalizing rows with
  | nil =>
    cases h
    exact ⟨id, fun r hr => hr, nofun⟩
  | cons k rest ih =>
    rw [List.map_cons, List.foldlM_cons] at h
    obtain ⟨mid, one, h⟩ := bind_eq_ok.mp h
    obtain ⟨row, rfl, own, sound⟩ := insertSchedule_eq_ok (named k List.mem_cons_self) one
    obtain ⟨sound', others, kept⟩ := ih (fun l hl => named l (List.mem_cons_of_mem k hl)) h
    refine ⟨sound' ∘ sound, fun r hr => others r (List.mem_append_left _ hr), fun l hl => ?_⟩
    rcases List.mem_cons.mp hl with rfl | later
    · exact ⟨row, others row (List.mem_append_right _ (List.mem_singleton_self row)), own⟩
    · exact kept l later

/-! ### Saving and loading -/

/-- the keys of the entries are those under which something is kept -/
theorem mapM_entryKey (named : ∀ k ∈ ks, IsNamed k) :
    (ks.map .ofSaved).mapM (fun e => (entryKey e).map (·, e)) = .ok (ks.map keyed) := by
  refine mapM_eq_ok.mpr (List.forall₂_map_left_iff.mpr (List.forall₂_map_right_iff.mpr ?_))
  refine List.forall₂_same.mpr fun k hk => ?_
  obtain ⟨name, rule⟩ := named k hk
  obtain ⟨rule', engine, streak, last⟩ := k
  cases rule
  rfl

/-- entries under different keys are saved as they are -/
theorem lastEntries_eq_self {entries : List (EntryKey × ScheduleEntry)}
    (apart : (entries.map Prod.fst).Nodup) : lastEntries entries = entries := by
  unfold lastEntries
  rw [distinctBy_eq_self apart]
  refine (List.map_congr_left fun e he => ?_).trans (List.map_id' _)
  cases last : entries.reverse.find? (fun e' => e'.1 = e.1) with
  | none => rfl
  | some e' =>
    have same : e'.1 = e.1 := by simpa using List.find?_some last
    exact List.inj_on_of_nodup_map apart (List.mem_reverse.mp (List.mem_of_find?_eq_some last)) he same

/-- a store whose table of schedules is sound -/
def KeepsSchedules (s : Store) : Prop := ∃ rows, s.schedules = some rows ∧ SoundRows rows

/-- saving things that bear names under different keys changes the rows of those that have one, and then adds
rows for the others -/
theorem saveSchedules_eq (named : ∀ k ∈ ks, IsNamed k) (apart : (ks.map savedKey).Nodup)
    (table : s.schedules = some rows) :
    saveSchedules priority (ks.map .ofSaved) s = do
      let changed ← ((ks.filter fun k => savedKey k ∈ rows.map rowKey).map keyed).foldlM updateSchedule rows
      let all ← ((ks.filter fun k => savedKey k ∉ rows.map rowKey).map keyed).foldlM
        (insertSchedule priority) changed
      return { s with schedules := some all } := by
  by_cases none : ks = []
  · subst none
    obtain ⟨_, _, _, _, _⟩ := s
    cases table
    rfl
  have keys : orFail ((ks.map .ofSaved).mapM fun e => (entryKey e).map (·, e)) = pure (ks.map keyed) :=
    orFail_eq_ok.mpr (mapM_entryKey named)
  have known : ∀ k, (rows.any fun r => rowKey r = (keyed k).1) = decide (savedKey k ∈ rows.map rowKey) := by
    intro k
    rw [Bool.eq_iff_iff, List.any_eq_true, decide_eq_true_eq, List.mem_map]
    simp only [decide_eq_true_eq]
    rfl
  have parts : (lastEntries (ks.map keyed)).partition (fun e => rows.any fun r => rowKey r = e.1) =
      ((ks.filter fun k => savedKey k ∈ rows.map rowKey).map keyed,
        (ks.filter fun k => savedKey k ∉ rows.map rowKey).map keyed) := by
    rw [lastEntries_eq_self (by simpa [keyed, Function.comp_def] using apart),
      List.partition_eq_filter_filter, List.filter_map, List.filter_map]
    simp only [Function.comp_def, known, decide_not]
  unfold saveSchedules
  rw [if_neg (by simpa using none), table, keys]
  change (pure rows >>= fun rows : List ScheduleRow => _) = _
  rw [pure_bind, pure_bind, parts]

/-- Saving a schedule keeps the table sound, and all that was saved is kept in it. -/
theorem saveSchedules_keeps (named : ∀ k ∈ ks, IsNamed k) (apart : (ks.map savedKey).Nodup)
    (table : s.schedules = some rows) (h : saveSchedules priority (ks.map .ofSaved) s = .ok t) :
    ∃ rows', t.schedules = some rows' ∧ (SoundRows rows → SoundRows rows') ∧ ∀ k ∈ ks, IsKept rows' k := by
  rw [saveSchedules_eq named apart table] at h
  -- what has a row changes it, and the rest is added behind all rows
  obtain ⟨changed, hchanged, h⟩ := bind_eq_ok.mp h
  obtain ⟨all, hall, h⟩ := bind_eq_ok.mp h
  cases h
  obtain ⟨-, sound', -, kept⟩ := foldlM_updateSchedule (fun k hk => named k (List.mem_of_mem_filter hk))
    (apart.sublist (List.filter_sublist.map _)) (fun k hk => by simpa using (List.mem_filter.mp hk).2) hchanged
  obtain ⟨sound'', others, kept'⟩ :=
    foldlM_insertSchedule (fun k hk => named k (List.mem_of_mem_filter hk)) hall
  refine ⟨all, rfl, sound'' ∘ sound', fun k hk => ?_⟩
  by_cases known : savedKey k ∈ rows.map rowKey
  · obtain ⟨r, hr, same⟩ := kept k (List.mem_filter.mpr ⟨hk, by simpa using known⟩)
    exact ⟨r, others r hr, same⟩
  · exact kept' k (List.mem_filter.mpr ⟨hk, by simpa using known⟩)

/-- the rules of a schedule that bear names are saved under different keys -/
theorem nodup_savedKey {schedule : Schedule} (h : schedule.IsSound)
    (named : ∀ e ∈ schedule.states, ∃ name, e.rule = .ofName name) :
    (schedule.saved.map savedKey).Nodup := by
  rw [Schedule.saved, List.map_map]
  refine List.pairwise_map.mpr ((List.pairwise_map.mp h.distinct).imp_of_mem ?_)
  intro d e hd he other same
  obtain ⟨name, rule⟩ := named d hd
  obtain ⟨name', rule'⟩ := named e he
  rw [rule, rule'] at other
  simp only [Function.comp, rule, rule'] at same
  exact other (congrArg Prod.fst same)

/-- whatever rows of a table are loaded, they were kept of different rules if no two rows have one key -/
theorem nodup_key (distinct : (rows.map rowKey).Nodup) (p : ScheduleRow → Bool) :
    (((rows.filter p).map ScheduleRow.saved).map SavedState.key).Nodup := by
  rw [List.map_map]
  refine List.pairwise_map.mpr
    ((List.pairwise_map.mp (distinct.sublist (List.filter_sublist.map rowKey))).imp ?_)
  rintro ⟨_, rule, engine, _, _, _, _⟩ ⟨_, rule', engine', _, _, _, _⟩ other same
  cases same
  exact other rfl

/-- What is loaded of an engine once a schedule of it has been saved makes of one that has not begun the
schedule that was saved, opened again. -/
theorem restore_of_saveSchedules {schedule : Schedule} (h : schedule.IsSound)
    (named : ∀ e ∈ schedule.states, ∃ name, e.rule = .ofName name) (sound : s.KeepsSchedules)
    (saved : saveSchedules priority (schedule.saved.map .ofSaved) s = .ok t) :
    t.KeepsSchedules ∧ ∃ kept, loadSchedules schedule.engine t = .ok kept ∧
      schedule.reset.restore kept = schedule.reopened := by
  have names : ∀ k ∈ schedule.saved, IsNamed k := by
    intro k hk
    obtain ⟨e, he, rfl⟩ := List.mem_map.mp hk
    obtain ⟨name, rule⟩ := named e he
    exact ⟨name, by rw [rule]; rfl⟩
  obtain ⟨old, table, sound⟩ := sound
  obtain ⟨rows, known, keeps, kept⟩ := saveSchedules_keeps names (nodup_savedKey h named) table saved
  have sound' := keeps sound
  refine ⟨⟨rows, known, sound'⟩, _, by rw [loadSchedules, known]; rfl, ?_⟩
  refine h.restore_reset (fun e he => ?_) (nodup_key sound'.distinct _) fun k hk => ?_
  · obtain ⟨name, rule⟩ := named e he
    rw [rule]
    rfl
  · obtain ⟨r, hr, rfl⟩ := kept k hk
    obtain ⟨e, -, same⟩ := List.mem_map.mp hk
    have engine : schedule.engine = r.engine := congrArg SavedState.engine same
    exact List.mem_map_of_mem (List.mem_filter.mpr ⟨hr, by simp [engine, sound'.enabled r hr]⟩)

end LintLedger.Store
