import LintLedger.Proofs.Schedule.LastFound
import LintLedger.Proofs.Store.Schedules
import Mathlib

/-!
# Schedules and the rows of their rules

A schedule *matches* a row if it knows of the row's rule what the row says.  Once a schedule has taken up what is
kept it matches every enabled row (`matches_restore`), and a cycle leaves it so but for the rule that is checked
(`Matches.runCycle`).  Saving a schedule leaves every row that it matches as it is, and every row of another
engine; afterwards it matches all rows (`saveSchedules_matches`).
-/

namespace LintLedger

open Outcome

namespace Schedule

variable {s : Schedule} {r : ScheduleRow} {rows : List ScheduleRow} {name : String} {ε : Type}

/-- whether a schedule knows of the rule of a row, if it is one of its rules, what the row says -/
def Matches (s : Schedule) (r : ScheduleRow) : Prop :=
  r.engine = s.engine → ∀ d ∈ s.states, d.rule.key = .text r.rule →
    d.zeroStreak = r.zeroStreak ∧ d.lastChecked = r.lastChecked

/-- a sound schedule under the name of an analyzer, whose rules bear names -/
structure Serves (s : Schedule) (name : String) : Prop where
  sound : s.IsSound
  engine : s.engine = name
  named : ∀ e ∈ s.states, ∃ rule, e.rule = .ofName rule

theorem Serves.of_isAlike {t : Schedule} (h : s.Serves name) (alike : s.IsAlike t) (sound : t.IsSound) :
    t.Serves name := by
  refine ⟨sound, alike.engine.trans h.engine, fun e he => ?_⟩
  have mem : e.rule ∈ s.rules := alike.rules ▸ List.mem_map_of_mem he
  obtain ⟨d, hd, same⟩ := List.mem_map.mp mem
  exact same ▸ h.named d hd

theorem Serves.runCycle (h : s.Serves name) (check : Rule → Except ε (List Violation)) :
    (s.runCycle check).2.Serves name :=
  h.of_isAlike (isAlike_runCycle check) (h.sound.runCycle check)

theorem Serves.restore (h : s.Serves name) (kept : List SavedState) : (s.restore kept).Serves name :=
  h.of_isAlike (isAlike_restore kept) (h.sound.restore kept)

/-- a cycle changes nothing that is known of rules but of the one that it checks -/
theorem Matches.runCycle {check : Rule → Except ε (List Violation)} (h : s.Matches r)
    (other : ∀ p ∈ s.answer? check, Store.rowKey r ≠ (p.1.key, .text s.engine)) : (s.runCycle check).2.Matches r := by
  intro engine d hd own
  rw [(isAlike_runCycle check).engine] at engine
  cases answer : s.answer? check with
  | none =>
    rw [(runCycle_of_answer?_eq_none answer).1] at hd
    exact h engine d hd own
  | some p =>
    obtain ⟨q, found⟩ := p
    obtain ⟨t, same, ran⟩ := runCycle_of_answer?_eq_some answer
    rw [ran] at hd
    obtain ⟨e, he, rfl⟩ := List.mem_map.mp hd
    split at own
    · rename_i checked
      refine absurd ?_ (other _ answer)
      rw [Store.rowKey, engine, ← own]
      exact congrArg (·, Key.text s.engine) checked
    · rename_i unchecked
      rw [if_neg unchecked]
      exact h engine e (same ▸ he) own

/-- what is loaded of an engine makes a schedule of it match every enabled row -/
theorem matches_restore (distinct : (rows.map Store.rowKey).Nodup) (hr : r ∈ rows) (enabled : r.enabled = true) :
    (s.restore ((rows.filter fun r => r.engine = s.engine && r.enabled).map ScheduleRow.saved)).Matches r := by
  intro engine d hd own
  rw [(isAlike_restore _).engine] at engine
  obtain ⟨cycle, taken, -⟩ := @exists_restore_eq s
    ((rows.filter fun r => r.engine = s.engine && r.enabled).map ScheduleRow.saved)
  rw [taken] at hd
  obtain ⟨e, -, rfl⟩ := List.mem_map.mp hd
  rw [rule_foldl_resume] at own
  have kept : r.saved ∈ (rows.filter fun r => r.engine = s.engine && r.enabled).map ScheduleRow.saved :=
    List.mem_map_of_mem (List.mem_filter.mpr ⟨hr, by simp [engine, enabled]⟩)
  have key : r.saved.key = (some e.rule.key, s.engine) := by
    rw [own, ← engine]
    rfl
  rw [foldl_resume (Store.nodup_key distinct _) kept key]
  exact ⟨rfl, rfl⟩

end Schedule

namespace Store

variable {s t : Store} {rows rows' : List ScheduleRow} {r : ScheduleRow} {ks : List SavedState} {priority : Value}
  {schedule : Schedule} {name : String}

/-- a row with what is kept under its key, if something is -/
def taking (r : ScheduleRow) (k : SavedState) : ScheduleRow :=
  if rowKey r = savedKey k then { r with zeroStreak := k.zeroStreak, lastChecked := k.lastChecked } else r

/-- changing the rows of several entries changes each row by all of them -/
theorem foldlM_updateSchedule_eq (h : (ks.map keyed).foldlM updateSchedule rows = .ok rows') :
    rows' = rows.map (ks.foldl taking) := by
  induction ks generalizing rows with
  | nil =>
    cases h
    exact (List.map_id' _).symm
  | cons k rest ih =>
    rw [List.map_cons, List.foldlM_cons] at h
    obtain ⟨mid, one, h⟩ := bind_eq_ok.mp h
    rw [ih h, updateSchedule_eq_ok one, List.map_map]
    rfl

/-- a row that says what is kept under its key is not changed by that -/
theorem foldl_taking (same : ∀ k ∈ ks, rowKey r = savedKey k →
    k.zeroStreak = r.zeroStreak ∧ k.lastChecked = r.lastChecked) : ks.foldl taking r = r := by
  induction ks with
  | nil => rfl
  | cons k rest ih =>
    have one : taking r k = r := by
      unfold taking
      split
      · rename_i own
        obtain ⟨streak, last⟩ := same k List.mem_cons_self own
        rw [streak, last]
      · rfl
    rw [List.foldl_cons, one]
    exact ih fun l hl => same l (List.mem_cons_of_mem k hl)

theorem rowKey_foldl_taking : rowKey (ks.foldl taking r) = rowKey r := by
  induction ks generalizing r with
  | nil => rfl
  | cons k rest ih =>
    rw [List.foldl_cons, ih]
    unfold taking
    split <;> rfl

/-- rows that are added are those of what is kept, behind all others -/
theorem exists_of_foldlM_insertSchedule (named : ∀ k ∈ ks, IsNamed k)
    (h : (ks.map keyed).foldlM (insertSchedule priority) rows = .ok rows') :
    ∃ added, rows' = rows ++ added ∧ added.map ScheduleRow.saved = ks := by
  induction ks generalizing rows with
  | nil =>
    cases h
    exact ⟨[], (List.append_nil _).symm, rfl⟩
  | cons k rest ih =>
    rw [List.map_cons, List.foldlM_cons] at h
    obtain ⟨mid, one, h⟩ := bind_eq_ok.mp h
    obtain ⟨row, rfl, own, -⟩ := insertSchedule_eq_ok (named k List.mem_cons_self) one
    obtain ⟨added, rfl, same⟩ := ih (fun l hl => named l (List.mem_cons_of_mem k hl)) h
    exact ⟨row :: added, by simp, by rw [List.map_cons, own, same]⟩

/-- what saving leaves: the rows that were there, each with what is saved of its rule, and rows of their own for
what had none -/
theorem exists_of_saveSchedules (named : ∀ k ∈ ks, IsNamed k) (apart : (ks.map savedKey).Nodup)
    (table : s.schedules = some rows) (saved : saveSchedules priority (ks.map .ofSaved) s = .ok t) :
    ∃ (known : List SavedState) (added : List ScheduleRow), known.Sublist ks ∧
      (added.map ScheduleRow.saved).Sublist ks ∧ (∀ r ∈ added, rowKey r ∉ rows.map rowKey) ∧
      t.schedules = some (rows.map (fun r => known.foldl taking r) ++ added) := by
  rw [saveSchedules_eq named apart table] at saved
  obtain ⟨changed, hchanged, saved⟩ := bind_eq_ok.mp saved
  obtain ⟨all, hall, saved⟩ := bind_eq_ok.mp saved
  cases saved
  obtain rfl := foldlM_updateSchedule_eq hchanged
  obtain ⟨added, rfl, new⟩ := exists_of_foldlM_insertSchedule (fun k hk => named k (List.mem_of_mem_filter hk)) hall
  refine ⟨_, added, List.filter_sublist, new ▸ List.filter_sublist, fun r hr => ?_, rfl⟩
  have mem : r.saved ∈ ks.filter fun k => savedKey k ∉ rows.map rowKey := new ▸ List.mem_map_of_mem hr
  exact of_decide_eq_true (List.mem_filter.mp mem).2

/-- **Saving a schedule.** Rows stay apart.  Those that the schedule matches stay as they are, those of other
engines too, and afterwards the schedule matches every row. -/
theorem saveSchedules_matches (serves : schedule.Serves name) (table : s.schedules = some rows)
    (distinct : (rows.map rowKey).Nodup)
    (saved : saveSchedules priority (schedule.saved.map .ofSaved) s = .ok t) :
    ∃ rows', t.schedules = some rows' ∧ (rows'.map rowKey).Nodup ∧ (∀ r ∈ rows', schedule.Matches r) ∧
      (∀ r ∈ rows, schedule.Matches r → r ∈ rows') ∧ ∀ r ∈ rows', r.engine ≠ name → r ∈ rows := by
  have named : ∀ k ∈ schedule.saved, IsNamed k := by
    intro k hk
    obtain ⟨e, he, rfl⟩ := List.mem_map.mp hk
    obtain ⟨rule, own⟩ := serves.named e he
    exact ⟨rule, by rw [own]; rfl⟩
  have apart := nodup_savedKey serves.sound serves.named
  obtain ⟨rows', table', -, kept⟩ := saveSchedules_keeps named apart table saved
  obtain ⟨known, added, within, within', new, same⟩ := exists_of_saveSchedules named apart table saved
  obtain rfl := Option.some.inj (table'.symm.trans same)
  have keys : (rows.map fun r => known.foldl taking r).map rowKey = rows.map rowKey := by
    rw [List.map_map]
    exact List.map_congr_left fun r _ => rowKey_foldl_taking
  have own : (added.map rowKey).Nodup := by
    have sub := apart.sublist (within'.map savedKey)
    rwa [List.map_map] at sub
  have distinct' : ((rows.map (fun r => known.foldl taking r) ++ added).map rowKey).Nodup := by
    rw [List.map_append, keys]
    refine List.nodup_append.mpr ⟨distinct, own, fun key old key' later same => ?_⟩
    obtain ⟨r, hr, rfl⟩ := List.mem_map.mp later
    exact new r hr (same ▸ old)
  have engine : ∀ k ∈ schedule.saved, k.engine = name := by
    intro k hk
    obtain ⟨e, -, rfl⟩ := List.mem_map.mp hk
    exact serves.engine
  refine ⟨_, same, distinct', fun r hr engine d hd own => ?_, fun r hr matched => ?_, fun r hr other => ?_⟩
  · -- what is saved of the rule is kept in a row with its key, and there is no other
    have mem : ⟨d.rule.value, schedule.engine, d.zeroStreak, d.lastChecked⟩ ∈ schedule.saved := List.mem_map_of_mem hd
    obtain ⟨q, hq, told⟩ := kept _ mem
    obtain ⟨rule, bears⟩ := serves.named d hd
    rw [bears] at told own
    obtain ⟨same, engine', streak, last⟩ := SavedState.mk.inj told
    have key : rowKey q = rowKey r := by
      rw [rowKey, rowKey, Value.text.inj same, engine', ← engine, ← own]
      rfl
    obtain rfl := List.inj_on_of_nodup_map distinct' hq hr key
    exact ⟨streak.symm, last.symm⟩
  · refine List.mem_append_left _ (List.mem_map.mpr ⟨r, hr, foldl_taking fun k hk own => ?_⟩)
    obtain ⟨d, hd, rfl⟩ := List.mem_map.mp (within.subset hk)
    obtain ⟨rule, bears⟩ := serves.named d hd
    rw [bears] at own
    obtain ⟨rule', engine'⟩ := Prod.mk.inj own
    exact matched (Key.text.inj engine') d hd (by rw [bears]; exact rule'.symm)
  · rcases List.mem_append.mp hr with old | later
    · obtain ⟨q, hq, rfl⟩ := List.mem_map.mp old
      have key : rowKey (known.foldl taking q) = rowKey q := rowKey_foldl_taking
      have apart : ∀ k ∈ known, rowKey q ≠ savedKey k := fun k hk own =>
        other ((Key.text.inj (congrArg Prod.snd (key.trans own))).trans (engine k (within.subset hk)))
      rw [foldl_taking fun k hk own => absurd own (apart k hk)]
      exact hq
    · exact absurd (engine _ (within'.subset (List.mem_map_of_mem later))) other

end Store

end LintLedger
