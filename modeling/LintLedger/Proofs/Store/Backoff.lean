import LintLedger.Proofs.Schedule.Steady
import LintLedger.Proofs.Store.Schedules
import LintLedger.Proofs.Store.Storable
import Mathlib

/-!
# Backing off across a restart

A schedule is saved rule by rule, into a table that may keep rows of rules that other schedules had.  Saving
it ends well just if the streaks and the last checks of its rules fit the columns of the table
(`exists_saveSchedules_iff`), which they do for longer than any schedule that began afresh goes on
(`IsCounted.fits`).  A schedule that has not begun and takes up what is loaded then knows of every rule what
was saved of it, and passes over the same rules in every cycle that is still to come (`backoff_survives`).
-/

namespace LintLedger

open Outcome

/-- whether the numbers that are kept of a rule fit the columns of a table -/
def SavedState.Fits (k : SavedState) : Prop :=
  Store.fits k.zeroStreak = true ∧ Store.fits k.lastChecked = true

namespace Schedule

variable {engine : String} {zeroThreshold reducedInterval : Nat} {names : List String} {s u : Schedule}
  {r : Rule} {e : RuleState} {ε : Type}

/-! ### Schedules that are driven by cycles -/

/-- the schedules that rules of some names come to by cycles, whatever their checks answer, from a fresh
start and after taking up anything that was kept -/
inductive Driven (engine : String) (zeroThreshold reducedInterval : Nat) (names : List String) :
    Schedule → Prop
  | start (threshold : 0 < zeroThreshold) (interval : 0 < reducedInterval) :
      Driven engine zeroThreshold reducedInterval names
        (.start engine zeroThreshold reducedInterval (names.map .ofName))
  | restore {s : Schedule} (before : Driven engine zeroThreshold reducedInterval names s)
      (kept : List SavedState) : Driven engine zeroThreshold reducedInterval names (s.restore kept)
  | runCycle {s : Schedule} {ε : Type} (before : Driven engine zeroThreshold reducedInterval names s)
      (check : Rule → Except ε (List Violation)) :
      Driven engine zeroThreshold reducedInterval names (s.runCycle check).2

theorem Driven.isSound (h : Driven engine zeroThreshold reducedInterval names s) : s.IsSound := by
  induction h with
  | start threshold interval => exact .start engine _ threshold interval
  | restore _ kept ih => exact ih.restore kept
  | runCycle _ check ih => exact ih.runCycle check

theorem Driven.isAlike (h : Driven engine zeroThreshold reducedInterval names s) :
    (Schedule.start engine zeroThreshold reducedInterval (names.map .ofName)).IsAlike s := by
  induction h with
  | start => exact ⟨rfl, rfl, rfl, rfl⟩
  | restore _ kept ih => exact ih.trans (isAlike_restore kept)
  | runCycle _ check ih => exact ih.trans (isAlike_runCycle check)

/-- the rules of a schedule that is driven are those that it was given, each only once -/
theorem Driven.exists_name (h : Driven engine zeroThreshold reducedInterval names s) (he : e ∈ s.states) :
    ∃ name, e.rule = .ofName name := by
  have own : e.rule ∈ s.rules := List.mem_map_of_mem he
  rw [h.isAlike.rules] at own
  obtain ⟨name, -, same⟩ := List.mem_map.mp (mem_of_mem_rules_start own)
  exact ⟨name, same.symm⟩

/-- beginning again, it is the schedule that it once began as -/
theorem Driven.reset (h : Driven engine zeroThreshold reducedInterval names s) :
    s.reset = Schedule.start engine zeroThreshold reducedInterval (names.map .ofName) := by
  have apart : ((Rule.distinct (names.map .ofName)).map Rule.key).Nodup :=
    List.pairwise_map.mpr (pairwise_distinctBy Rule.key _)
  have once : Rule.distinct (Rule.distinct (names.map .ofName)) = Rule.distinct (names.map .ofName) :=
    distinctBy_eq_self apart
  have listed : (Schedule.start engine zeroThreshold reducedInterval (names.map .ofName)).rules =
      Rule.distinct (names.map .ofName) := by
    change ((Rule.distinct _).map RuleState.fresh).map (·.rule) = _
    rw [List.map_map]
    exact List.map_id' _
  rw [h.isAlike.reset, Schedule.reset, listed]
  unfold Schedule.start
  rw [once]

/-! ### What a restart keeps -/

/-- whether a check was recorded in the present cycle -/
def IsRecorded (s : Schedule) : Prop := ∃ e ∈ s.states, e.lastChecked = s.cycle

/-- the rules that are backed off -/
def backedOff (s : Schedule) : List Rule := (s.states.filter s.isBackedOff).map (·.rule)

/-- the rules that may be checked in a cycle -/
def eligibleIn (s : Schedule) (n : Nat) : List Rule :=
  (s.states.filter { s with cycle := n }.isEligible).map (·.rule)

/-- whether a schedule goes on backing off where another one stood: what it keeps of each rule is the same,
the same rules are backed off, it is in the cycle of the latest check that was recorded, and whichever
number a cycle has, the same rules may be checked in it -/
structure Resumes (u s : Schedule) : Prop where
  saved : u.saved = s.saved
  backedOff : u.backedOff = s.backedOff
  cycle : u.cycle = s.latest
  eligible : ∀ n, u.eligibleIn n = s.eligibleIn n
  present : s.IsRecorded → u.cycle = s.cycle

/-- the cycle in which a rule was checked is one in which a check is recorded -/
theorem isRecorded_runCycle {check : Rule → Except ε (List Violation)} {known : List Violation}
    (h : (s.runCycle check).1 = .ok (some r, known)) : (s.runCycle check).2.IsRecorded := by
  cases next : s.upcoming? with
  | none =>
    rw [(runCycle_of_upcoming_eq_none check next).1] at h
    cases h
  | some rule =>
    obtain ⟨t, same, failed, checked⟩ := runCycle_of_upcoming_eq_some check next
    cases answer : check rule with
    | error f =>
      rw [failed f answer] at h
      cases h
    | ok found =>
      rw [checked found answer]
      obtain ⟨e, he, rfl⟩ := exists_of_upcoming_eq_some next
      exact ⟨_, List.mem_map.mpr ⟨e, same ▸ he, rfl⟩, by rw [if_pos rfl]; rfl⟩

/-- a check that is recorded in the present cycle is the latest -/
theorem IsSound.latest_eq (h : s.IsSound) (recorded : s.IsRecorded) : s.latest = s.cycle := by
  obtain ⟨e, he, now⟩ := recorded
  have := le_latest he
  exact le_antisymm (latest_le h.past) (by omega)

/-- a schedule opened again keeps backing off -/
theorem IsSound.resumes_reopened (h : s.IsSound) : s.reopened.Resumes s where
  saved := List.map_map
  backedOff := by
    change ((s.states.map RuleState.forgotten).filter s.isBackedOff).map (·.rule) = _
    rw [List.filter_map, List.map_map]
    rfl
  cycle := rfl
  eligible n := by
    change ((s.states.map RuleState.forgotten).filter { s with cycle := n }.isEligible).map (·.rule) = _
    rw [List.filter_map, List.map_map]
    rfl
  present := h.latest_eq

/-! ### Counting cycles -/

/-- whether every rule has been silent in no more checks than there were cycles up to its last one -/
def IsCounted (s : Schedule) : Prop := ∀ e ∈ s.states, 0 ≤ e.zeroStreak ∧ e.zeroStreak ≤ e.lastChecked

theorem IsCounted.start (rules : List Rule) :
    (start engine zeroThreshold reducedInterval rules).IsCounted := by
  intro e he
  obtain ⟨r, -, rfl⟩ := List.mem_map.mp he
  exact ⟨le_rfl, le_rfl⟩

theorem IsCounted.runCycle (counted : s.IsCounted) (h : s.IsSound)
    (check : Rule → Except ε (List Violation)) : (s.runCycle check).2.IsCounted := by
  unfold Schedule.runCycle
  cases turn : s.select with
  | none => exact counted
  | some p =>
    obtain ⟨rule, t⟩ := p
    obtain ⟨-, cursor, rfl⟩ := select_eq_some turn
    dsimp only
    split
    · exact counted
    · split
      · exact counted
      · intro e he
        obtain ⟨d, hd, rfl⟩ := List.mem_map.mp he
        have := counted d hd
        have := h.past d hd
        split
        · dsimp only
          split <;> omega
        · exact counted d hd

theorem IsCounted.restore (counted : s.IsCounted) {kept : List SavedState}
    (counts : ∀ k ∈ kept, 0 ≤ k.zeroStreak ∧ k.zeroStreak ≤ k.lastChecked) :
    (s.restore kept).IsCounted := by
  unfold Schedule.restore
  induction kept generalizing s with
  | nil => exact counted
  | cons k rest ih =>
    refine ih ?_ fun l hl => counts l (List.mem_cons_of_mem k hl)
    rcases restoreOne_cases (s := s) (k := k) with ⟨-, passed⟩ | ⟨-, taken⟩
    · rw [passed]
      exact counted
    · rw [taken]
      intro e he
      obtain ⟨d, hd, rfl⟩ := List.mem_map.mp he
      unfold RuleState.resume
      split
      · exact counts k List.mem_cons_self
      · exact counted d hd

/-- as long as the cycles themselves can be counted, so can all that is kept of them -/
theorem IsCounted.fits (counted : s.IsCounted) (h : s.IsSound) (few : s.cycle < 2 ^ 63) :
    ∀ k ∈ s.saved, k.Fits := by
  intro k hk
  obtain ⟨e, he, rfl⟩ := List.mem_map.mp hk
  have counts := counted e he
  have past := h.past e he
  have fits : ∀ {i : Int}, 0 ≤ i → i ≤ s.cycle → Store.fits i = true := by
    intro i low high
    unfold Store.fits
    rw [Bool.and_eq_true, decide_eq_true_eq, decide_eq_true_eq]
    change -(2 ^ 63 : Int) ≤ i ∧ i < 2 ^ 63
    omega
  exact ⟨fits counts.1 (counts.2.trans past), fits (counts.1.trans counts.2) past⟩

end Schedule

namespace Store

variable {s t : Store} {rows rows' : List ScheduleRow} {k : SavedState} {ks : List SavedState}
  {priority : Int}

/-! ### What can be saved -/

theorem exists_updateSchedule_iff : (∃ rows', updateSchedule rows (keyed k) = .ok rows') ↔ k.Fits := by
  constructor
  · rintro ⟨rows', h⟩
    obtain ⟨streak, hstreak, h⟩ := bind_eq_ok.mp h
    obtain ⟨last, hlast, -⟩ := bind_eq_ok.mp h
    obtain ⟨_, hstreak, -⟩ := bind_eq_ok.mp hstreak
    obtain ⟨_, hlast, -⟩ := bind_eq_ok.mp hlast
    exact ⟨fits_of_countColumn? hstreak, fits_of_countColumn? hlast⟩
  · rintro ⟨streak, last⟩
    exact ⟨_, bind_eq_ok.mpr ⟨_, countColumn_of_fits streak, bind_eq_ok.mpr ⟨_, countColumn_of_fits last, rfl⟩⟩⟩

theorem exists_foldlM_updateSchedule_iff :
    (∃ rows', (ks.map keyed).foldlM updateSchedule rows = .ok rows') ↔ ∀ k ∈ ks, k.Fits := by
  induction ks generalizing rows with
  | nil => exact ⟨fun _ => nofun, fun _ => ⟨rows, rfl⟩⟩
  | cons k rest ih =>
    rw [List.map_cons, List.foldlM_cons, List.forall_mem_cons]
    constructor
    · rintro ⟨rows', h⟩
      obtain ⟨mid, one, h⟩ := bind_eq_ok.mp h
      exact ⟨exists_updateSchedule_iff.mp ⟨mid, one⟩, ih.mp ⟨rows', h⟩⟩
    · rintro ⟨own, others⟩
      obtain ⟨mid, one⟩ := exists_updateSchedule_iff.mpr own
      obtain ⟨rows', h⟩ := ih.mpr others
      exact ⟨rows', bind_eq_ok.mpr ⟨mid, one, h⟩⟩

theorem exists_insertSchedule_iff (named : IsNamed k) (small : fits priority = true)
    (new : savedKey k ∉ rows.map rowKey) :
    (∃ rows', insertSchedule (.int priority) rows (keyed k) = .ok rows') ↔ k.Fits := by
  obtain ⟨name, rule⟩ := named
  obtain ⟨rule', engine, streak, last⟩ := k
  cases rule
  have unknown : (rows.any fun r => r.rule = name && r.engine = engine) = false := by
    rw [← Bool.not_eq_true, List.any_eq_true]
    rintro ⟨r, hr, same⟩
    obtain ⟨rfl, rfl⟩ : r.rule = name ∧ r.engine = engine := by simpa using same
    exact new (List.mem_map.mpr ⟨r, hr, rfl⟩)
  constructor
  · rintro ⟨rows', h⟩
    obtain ⟨_, -, h⟩ := bind_eq_ok.mp h
    obtain ⟨_, -, h⟩ := bind_eq_ok.mp h
    obtain ⟨_, -, h⟩ := bind_eq_ok.mp h
    obtain ⟨_, hstreak, h⟩ := bind_eq_ok.mp h
    obtain ⟨_, hlast, -⟩ := bind_eq_ok.mp h
    exact ⟨fits_of_countColumn? hstreak, fits_of_countColumn? hlast⟩
  · rintro ⟨hstreak, hlast⟩
    refine ⟨rows ++ [⟨nextId ScheduleRow.id rows, name, engine, true, priority, streak, last⟩], ?_⟩
    refine bind_eq_ok.mpr ⟨name, rfl, bind_eq_ok.mpr ⟨engine, rfl, bind_eq_ok.mpr
      ⟨_, countColumn?_of_fits small, bind_eq_ok.mpr ⟨_, countColumn?_of_fits hstreak,
        bind_eq_ok.mpr ⟨_, countColumn?_of_fits hlast, ?_⟩⟩⟩⟩⟩
    dsimp only
    rw [unknown]
    rfl

theorem exists_foldlM_insertSchedule_iff (named : ∀ k ∈ ks, IsNamed k) (apart : (ks.map savedKey).Nodup)
    (small : fits priority = true) (new : ∀ k ∈ ks, savedKey k ∉ rows.map rowKey) :
    (∃ rows', (ks.map keyed).foldlM (insertSchedule (.int priority)) rows = .ok rows') ↔
      ∀ k ∈ ks, k.Fits := by
  induction ks generalizing rows with
  | nil => exact ⟨fun _ => nofun, fun _ => ⟨rows, rfl⟩⟩
  | cons k rest ih =>
    rw [List.map_cons, List.nodup_cons] at apart
    have one := exists_insertSchedule_iff (named k List.mem_cons_self) small (new k List.mem_cons_self)
    -- the row that is added has no key that is still to come
    have next : ∀ mid, insertSchedule (.int priority) rows (keyed k) = .ok mid →
        ((∃ rows', (rest.map keyed).foldlM (insertSchedule (.int priority)) mid = .ok rows') ↔
          ∀ k ∈ rest, k.Fits) := by
      intro mid added
      obtain ⟨row, rfl, rfl, -⟩ := insertSchedule_eq_ok (named k List.mem_cons_self) added
      refine ih (fun l hl => named l (List.mem_cons_of_mem _ hl)) apart.2 fun l hl old => ?_
      rw [List.map_append, List.mem_append, List.map_singleton, List.mem_singleton] at old
      rcases old with old | own
      · exact new l (List.mem_cons_of_mem _ hl) old
      · exact apart.1 (List.mem_map.mpr ⟨l, hl, own⟩)
    rw [List.map_cons, List.foldlM_cons, List.forall_mem_cons]
    constructor
    · rintro ⟨rows', h⟩
      obtain ⟨mid, added, h⟩ := bind_eq_ok.mp h
      exact ⟨one.mp ⟨mid, added⟩, (next mid added).mp ⟨rows', h⟩⟩
    · rintro ⟨own, others⟩
      obtain ⟨mid, added⟩ := one.mpr own
      obtain ⟨rows', h⟩ := (next mid added).mpr others
      exact ⟨rows', bind_eq_ok.mpr ⟨mid, added, h⟩⟩

/-- things that bear names are saved under different keys just if their numbers fit -/
theorem exists_saveSchedules_iff (named : ∀ k ∈ ks, IsNamed k) (apart : (ks.map savedKey).Nodup)
    (small : fits priority = true) (table : s.schedules = some rows) :
    (∃ t, saveSchedules (.int priority) (ks.map .ofSaved) s = .ok t) ↔ ∀ k ∈ ks, k.Fits := by
  have some : ∀ p : SavedState → Bool, ∀ k ∈ ks.filter p, IsNamed k := fun p k hk =>
    named k (List.mem_of_mem_filter hk)
  -- changing rows leaves their keys as they are, so that the others stay new
  have added : ∀ changed, ((ks.filter fun k => savedKey k ∈ rows.map rowKey).map keyed).foldlM
      updateSchedule rows = .ok changed →
        ((∃ all, ((ks.filter fun k => savedKey k ∉ rows.map rowKey).map keyed).foldlM
          (insertSchedule (.int priority)) changed = .ok all) ↔
            ∀ k ∈ ks.filter fun k => savedKey k ∉ rows.map rowKey, k.Fits) := by
    intro changed hchanged
    obtain ⟨keys, -⟩ := foldlM_updateSchedule (some _) (apart.sublist (List.filter_sublist.map _))
      (fun k hk => by simpa using (List.mem_filter.mp hk).2) hchanged
    refine exists_foldlM_insertSchedule_iff (some _) (apart.sublist (List.filter_sublist.map _)) small ?_
    intro k hk
    rw [keys]
    simpa using (List.mem_filter.mp hk).2
  rw [saveSchedules_eq named apart table]
  constructor
  · rintro ⟨t, h⟩ k hk
    obtain ⟨changed, hchanged, h⟩ := bind_eq_ok.mp h
    obtain ⟨all, hall, -⟩ := bind_eq_ok.mp h
    by_cases known : savedKey k ∈ rows.map rowKey
    · exact exists_foldlM_updateSchedule_iff.mp ⟨changed, hchanged⟩ k
        (List.mem_filter.mpr ⟨hk, by simpa using known⟩)
    · exact (added changed hchanged).mp ⟨all, hall⟩ k (List.mem_filter.mpr ⟨hk, by simpa using known⟩)
  · intro fitting
    obtain ⟨changed, hchanged⟩ := exists_foldlM_updateSchedule_iff.mpr fun k hk =>
      fitting k (List.mem_of_mem_filter hk)
    obtain ⟨all, hall⟩ := (added changed hchanged).mpr fun k hk => fitting k (List.mem_of_mem_filter hk)
    exact ⟨_, bind_eq_ok.mpr ⟨changed, hchanged, bind_eq_ok.mpr ⟨all, hall, rfl⟩⟩⟩

/-! ### What saves leave -/

/-- what keeps a table sound entry by entry keeps it sound -/
theorem SoundRows.foldlM {step : List ScheduleRow → EntryKey × ScheduleEntry → Except Failure (List ScheduleRow)}
    (keeps : ∀ rows rows' e, step rows e = .ok rows' → SoundRows rows → SoundRows rows')
    {entries : List (EntryKey × ScheduleEntry)} (h : entries.foldlM step rows = .ok rows')
    (sound : SoundRows rows) : SoundRows rows' := by
  induction entries generalizing rows with
  | nil =>
    cases h
    exact sound
  | cons e rest ih =>
    rw [List.foldlM_cons] at h
    obtain ⟨mid, one, h⟩ := bind_eq_ok.mp h
    exact ih h (keeps rows mid e one sound)

/-- saving entries of any kind keeps the table sound -/
theorem saveSchedules_sound {priority : Value} {entries : List ScheduleEntry} (sound : s.KeepsSchedules)
    (h : saveSchedules priority entries s = .ok t) : t.KeepsSchedules := by
  obtain ⟨rows, table, sound⟩ := sound
  unfold saveSchedules at h
  split at h
  · cases h
    exact ⟨rows, table, sound⟩
  obtain ⟨rows', needed, h⟩ := bind_eq_ok.mp h
  obtain rfl : rows = rows' := by
    rw [table] at needed
    cases needed
    rfl
  obtain ⟨keys, -, h⟩ := bind_eq_ok.mp h
  dsimp only at h
  obtain ⟨changed, hchanged, h⟩ := bind_eq_ok.mp h
  obtain ⟨all, hall, h⟩ := bind_eq_ok.mp h
  cases h
  exact ⟨all, rfl, .foldlM (fun _ _ _ h sound => insertSchedule_sound sound h) hall
    (.foldlM (fun _ _ _ h => (updateSchedule_keeps h).2) hchanged sound)⟩

/-- the stores in which saves of entries of any kind have left the table of schedules as it is -/
inductive LedBySaves : Store → Prop
  | new {s : Store} (empty : s.schedules = some []) : LedBySaves s
  | other {s t : Store} (before : LedBySaves s) (same : t.schedules = s.schedules) : LedBySaves t
  | save {s t : Store} {priority : Value} {entries : List ScheduleEntry} (before : LedBySaves s)
      (saved : saveSchedules priority entries s = .ok t) : LedBySaves t

theorem LedBySaves.keepsSchedules (h : LedBySaves s) : s.KeepsSchedules := by
  induction h with
  | new empty => exact ⟨[], empty, List.nodup_nil, nofun⟩
  | other _ same ih =>
    obtain ⟨rows, table, sound⟩ := ih
    exact ⟨rows, same.trans table, sound⟩
  | save _ saved ih => exact saveSchedules_sound ih saved

/-- no rule has two rows of one engine -/
theorem SoundRows.nodup (sound : SoundRows rows) : (rows.map fun r => (r.rule, r.engine)).Nodup := by
  refine List.pairwise_map.mpr ((List.pairwise_map.mp sound.distinct).imp fun other same => other ?_)
  rw [Prod.mk.injEq] at same
  unfold rowKey
  rw [same.1, same.2]

/-! ### Saving, loading and taking up -/

/-- **Backing off survives a restart.** Whatever schedule a number of cycles has led to, and whatever earlier
saves have left in the table, no rule has two rows of one engine there.  Saving the schedule ends well just if
the numbers that it keeps of its rules fit their columns; and once it has, what is loaded lets a schedule that
has not begun, over the same rules and on the same terms, go on backing off where this one stood. -/
theorem backoff_survives {engine : String} {zeroThreshold reducedInterval : Nat} {names : List String}
    {schedule : Schedule} (driven : Schedule.Driven engine zeroThreshold reducedInterval names schedule)
    (led : LedBySaves s) (small : fits priority = true) :
    (∃ rows, s.schedules = some rows ∧ (rows.map fun r => (r.rule, r.engine)).Nodup) ∧
      ((∃ t, saveSchedules (.int priority) (schedule.saved.map .ofSaved) s = .ok t) ↔
        ∀ k ∈ schedule.saved, k.Fits) ∧
      ∀ t, saveSchedules (.int priority) (schedule.saved.map .ofSaved) s = .ok t →
        LedBySaves t ∧ ∃ kept, loadSchedules engine t = .ok kept ∧
          ((Schedule.start engine zeroThreshold reducedInterval (names.map .ofName)).restore kept).Resumes
            schedule := by
  obtain ⟨rows, table, sound⟩ := led.keepsSchedules
  have bears : ∀ e ∈ schedule.states, ∃ name, e.rule = .ofName name := fun e he => driven.exists_name he
  have named : ∀ k ∈ schedule.saved, IsNamed k := by
    intro k hk
    obtain ⟨e, he, rfl⟩ := List.mem_map.mp hk
    obtain ⟨name, rule⟩ := bears e he
    exact ⟨name, by rw [rule]; rfl⟩
  refine ⟨⟨rows, table, sound.nodup⟩,
    exists_saveSchedules_iff named (nodup_savedKey driven.isSound bears) small table, fun t saved => ?_⟩
  obtain ⟨-, kept, loaded, reopened⟩ :=
    restore_of_saveSchedules driven.isSound bears ⟨rows, table, sound⟩ saved
  have own : schedule.engine = engine := driven.isAlike.engine
  refine ⟨led.save saved, kept, own ▸ loaded, ?_⟩
  rw [← driven.reset, reopened]
  exact driven.isSound.resumes_reopened

/-- a schedule that took up that one of its two rules has long been silent, and then checked the other -/
def oneSilent : Schedule :=
  let resumed := (Schedule.start "eslint" 5 5 (["quiet", "busy"].map .ofName)).restore
    [⟨.text "quiet", "eslint", 5, 9⟩]
  (resumed.runCycle fun _ => (.ok [] : Except Failure (List Violation))).2

/-- what was saved of other rules, of another engine, and of one of the rules long ago -/
def staleEntries : List ScheduleEntry :=
  [⟨.text "old", .text "eslint", .int 3, .int 40⟩, ⟨.text "quiet", .text "eslint", .int 1, .int 2⟩,
    ⟨.text "busy", .text "typescript", .int 7, .int 50⟩]

/-- the store that they were saved in -/
def staleStore : Store :=
  { Store.empty with
    schedules := some [⟨1, "old", "eslint", true, 1, 3, 40⟩, ⟨2, "quiet", "eslint", true, 1, 1, 2⟩,
      ⟨3, "busy", "typescript", true, 1, 7, 50⟩] }

/-- rows of rules that a schedule does not have, and of another engine, do not get in its way -/
theorem backoff_survives_stale : fits 1 = true ∧ saveSchedules (.int 1) staleEntries .empty = .ok staleStore ∧
    ∃ t, saveSchedules (.int 1) (oneSilent.saved.map .ofSaved) staleStore = .ok t ∧
      ∃ kept, loadSchedules "eslint" t = .ok kept ∧
        ((Schedule.start "eslint" 5 5 (["quiet", "busy"].map .ofName)).restore kept).Resumes oneSilent := by
  have small : fits 1 = true := by decide
  have stale : saveSchedules (.int 1) staleEntries .empty = .ok staleStore := rfl
  have driven : Schedule.Driven "eslint" 5 5 ["quiet", "busy"] oneSilent :=
    .runCycle (.restore (.start (by decide) (by decide)) _) _
  obtain ⟨-, ends, resumes⟩ := backoff_survives driven (.save (.new rfl) stale) small
  obtain ⟨t, saved⟩ := ends.mpr (by unfold SavedState.Fits; decide +kernel)
  exact ⟨small, stale, t, saved, (resumes t saved).2⟩

/-- a schedule that took up the last number that a column holds, and then went on by one cycle -/
def beyondColumn : Schedule :=
  let resumed := (Schedule.start "eslint" 5 5 (["a"].map .ofName)).restore
    [⟨.text "a", "eslint", 0, 9223372036854775807⟩]
  (resumed.runCycle fun _ => (.ok [] : Except Failure (List Violation))).2

/-- a schedule whose cycles have gone beyond the numbers of a column cannot be saved -/
theorem saved_beyond_column : Schedule.Driven "eslint" 5 5 ["a"] beyondColumn ∧
    saveSchedules (.int 1) [⟨.text "a", .text "eslint", .int 0, .int 9223372036854775807⟩] .empty =
      .ok { Store.empty with schedules := some [⟨1, "a", "eslint", true, 1, 0, 9223372036854775807⟩] } ∧
    saveSchedules (.int 1) (beyondColumn.saved.map .ofSaved)
      { Store.empty with schedules := some [⟨1, "a", "eslint", true, 1, 0, 9223372036854775807⟩] } =
        .error .beyondStore := by
  exact ⟨.runCycle (.restore (.start (by decide) (by decide)) _) _, rfl, rfl⟩

end Store

end LintLedger
