import LintLedger.Proofs.Store.Retention
import LintLedger.Watch
import Mathlib

/-!
# One cycle of the watch

Whatever a cycle, its signals and its listeners do, the watch comes out of them with one more cycle and with its
lock taken (`isAlike_runAndTell`), and `runOnce` gives the lock back however it ends (`busy_runOnce`).  The one
thing that can make it fail is the removal of old data (`runOnce_eq_error_iff`), and where these are kept in a
store, it does so just when the removal is due and the calendar does not go back as far as they are kept
(`exists_runOnce_fails_iff`).
-/

namespace LintLedger.Watch

open Outcome

variable {σ ρ : Type}

/-- a world whose old data, if it has any, lie in a store that is kept in one way, and that goes by a clock of
its own -/
structure World.IsKept (W : World σ ρ) (k : StoreSettings) (clock : σ → Instant) : Prop where
  /-- the clock shows moments of the calendar -/
  calendar : ∀ w, (clock w).micros < Instant.limit
  /-- the removal ends as it does in some store -/
  cleanup : ∀ c, W.cleanup = some c → ∀ w, ∃ store : Store,
    (c w).1 = (Store.cleanup k (clock w) none store).map fun _ => ()

namespace Scene

variable {W : World σ ρ} {s t u : Scene σ ρ} {f : Failure} {r : ρ}

/-! ### What signals and listeners leave alone -/

/-- scenes whose watches have the same settings, have begun as many cycles, and are busy or free alike -/
structure IsAlike (s t : Scene σ ρ) : Prop where
  settings : t.watch.settings = s.watch.settings
  cycles : t.watch.cycles = s.watch.cycles
  busy : t.watch.busy = s.watch.busy

theorem IsAlike.refl (s : Scene σ ρ) : s.IsAlike s := ⟨rfl, rfl, rfl⟩

theorem IsAlike.trans (h : s.IsAlike t) (h' : t.IsAlike u) : s.IsAlike u :=
  ⟨h'.settings.trans h.settings, h'.cycles.trans h.cycles, h'.busy.trans h.busy⟩

theorem isAlike_log (s : Scene σ ρ) (e : Event ρ) : s.IsAlike (s.log e) := ⟨rfl, rfl, rfl⟩

theorem isAlike_inWorld (s : Scene σ ρ) (w : σ) : s.IsAlike { s with world := w } := ⟨rfl, rfl, rfl⟩

theorem isAlike_foldl {α : Type} {step : Scene σ ρ → α → Scene σ ρ}
    (one : ∀ (s : Scene σ ρ) a, s.IsAlike (step s a)) (items : List α) (s : Scene σ ρ) : s.IsAlike (items.foldl step s) := by
  induction items generalizing s with
  | nil => exact .refl s
  | cons a rest ih => exact (one s a).trans (ih (step s a))

theorem isAlike_heed (W : World σ ρ) (s : Scene σ ρ) (signal : Signal) : s.IsAlike (s.heed W signal) := by
  cases signal <;> exact ⟨rfl, rfl, rfl⟩

theorem isAlike_tellOne (result : Option ρ) (failure : Option Failure) (s : Scene σ ρ)
    (l : (Option ρ → Option Failure → σ → List Signal × σ) × Nat) :
    s.IsAlike (tellOne W result failure s l) :=
  (isAlike_log s _).trans ((isAlike_inWorld _ _).trans (isAlike_foldl (isAlike_heed W) _ _))

theorem isAlike_tell (result : Option ρ) (failure : Option Failure) : s.IsAlike (s.tell W result failure) :=
  isAlike_foldl (isAlike_tellOne result failure) _ s

theorem isAlike_cleanupIfDue : s.IsAlike (s.cleanupIfDue W).2 := by
  unfold cleanupIfDue
  split
  · exact .refl s
  · split
    · exact .refl s
    · dsimp only
      split <;> exact ⟨rfl, rfl, rfl⟩

/-! ### A cycle up to the removal of old data -/

theorem isAlike_conclude (outcome : Except Failure ρ) (s : Scene σ ρ) : s.IsAlike (s.conclude W outcome) := by
  cases outcome with
  | error f =>
    have counted : s.IsAlike
        { s with watch := { s.watch with failures := s.watch.failures + 1, lastFailure := some f } } :=
      ⟨rfl, rfl, rfl⟩
    exact counted.trans (isAlike_tell none (some f))
  | ok r =>
    have kept : s.IsAlike { s with watch := { s.watch with lastResult := some r, lastFailure := none } } :=
      ⟨rfl, rfl, rfl⟩
    exact kept.trans (isAlike_tell (some r) none)

/-- after a cycle, the watch is as it was when it began it -/
theorem isAlike_runAndTell (W : World σ ρ) (s : Scene σ ρ) : (s.beginCycle W).IsAlike (s.runAndTell W).2 :=
  (isAlike_inWorld _ _).trans ((isAlike_foldl (isAlike_heed W) _ _).trans (isAlike_conclude _ _))

theorem cleanupIfDue_eq_error_iff : (s.cleanupIfDue W).1 = .error f ↔
    cleanupDue s.watch = true ∧ (∃ c, W.cleanup = some c ∧ (c s.world).1 = .error f) ∧ f.kind ≠ .storage := by
  unfold cleanupIfDue
  cases W.cleanup with
  | none => simp
  | some c =>
    cases due : cleanupDue s.watch with
    | false => simp
    | true =>
      have began : (s.log .cleaned).world = s.world := rfl
      simp only [Bool.not_true, Bool.false_eq_true, if_false, began, true_and, Option.some.injEq,
        exists_eq_left']
      obtain ⟨removed, world⟩ := c s.world
      cases removed with
      | ok done => simp
      | error g =>
        by_cases storage : g.kind = .storage
        · simp only [storage, if_true]
          refine iff_of_false nofun ?_
          rintro ⟨same, foreign⟩
          cases same
          exact foreign storage
        · simp only [storage, if_false, Except.error.injEq]
          refine ⟨?_, And.left⟩
          rintro rfl
          exact ⟨rfl, storage⟩

/-! ### The whole of a cycle -/

theorem runOnce_of_busy (h : s.watch.busy = true) : s.runOnce W = (.ok none, s) := if_pos h

theorem runOnce_of_error (free : s.watch.busy = false) (h : (s.runAndTell W).1 = .error f) :
    s.runOnce W = (.ok none, (s.runAndTell W).2.release) := by
  unfold runOnce
  rw [if_neg (by simp [free])]
  generalize s.runAndTell W = told at h
  obtain ⟨outcome, t⟩ := told
  cases h
  rfl

theorem runOnce_of_ok (free : s.watch.busy = false) (h : (s.runAndTell W).1 = .ok r) :
    s.runOnce W = (((s.runAndTell W).2.cleanupIfDue W).1.map fun _ => some r,
      ((s.runAndTell W).2.cleanupIfDue W).2.release) := by
  unfold runOnce
  rw [if_neg (by simp [free])]
  generalize s.runAndTell W = told at h
  obtain ⟨outcome, t⟩ := told
  cases h
  rfl

/-- a watch that was free begins its next cycle and is free again when that is over -/
theorem exists_isAlike_runOnce (free : s.watch.busy = false) :
    ∃ t, (s.beginCycle W).IsAlike t ∧ (s.runOnce W).2 = t.release := by
  have told := isAlike_runAndTell W s
  cases outcome : (s.runAndTell W).1 with
  | error f =>
    rw [runOnce_of_error free outcome]
    exact ⟨_, told, rfl⟩
  | ok r =>
    rw [runOnce_of_ok free outcome]
    exact ⟨_, told.trans isAlike_cleanupIfDue, rfl⟩

/-- **The lock is given back.** A cycle leaves the watch as busy as it was, even if it fails. -/
theorem busy_runOnce (W : World σ ρ) (s : Scene σ ρ) : (s.runOnce W).2.watch.busy = s.watch.busy := by
  cases busy : s.watch.busy with
  | true => rw [runOnce_of_busy busy, busy]
  | false =>
    obtain ⟨t, -, h⟩ := exists_isAlike_runOnce (W := W) busy
    rw [h]
    rfl

theorem settings_runOnce (W : World σ ρ) (s : Scene σ ρ) :
    (s.runOnce W).2.watch.settings = s.watch.settings := by
  cases busy : s.watch.busy with
  | true => rw [runOnce_of_busy busy]
  | false =>
    obtain ⟨t, alike, h⟩ := exists_isAlike_runOnce (W := W) busy
    rw [h]
    exact alike.settings

theorem cycles_runOnce (W : World σ ρ) (s : Scene σ ρ) :
    (s.runOnce W).2.watch.cycles = s.watch.cycles + if s.watch.busy then 0 else 1 := by
  cases busy : s.watch.busy with
  | true => rw [runOnce_of_busy busy, if_pos rfl, Nat.add_zero]
  | false =>
    obtain ⟨t, alike, h⟩ := exists_isAlike_runOnce (W := W) busy
    rw [h, if_neg (by decide)]
    exact alike.cycles

/-- a cycle fails only over the removal of old data that follows it -/
theorem runOnce_eq_error_iff : (s.runOnce W).1 = .error f ↔
    s.watch.busy = false ∧ (∃ r, (s.runAndTell W).1 = .ok r) ∧
      ((s.runAndTell W).2.cleanupIfDue W).1 = .error f := by
  cases busy : s.watch.busy with
  | true => simp [runOnce_of_busy busy]
  | false =>
    cases outcome : (s.runAndTell W).1 with
    | error g => simp [runOnce_of_error busy outcome]
    | ok r =>
      rw [runOnce_of_ok busy outcome]
      cases ((s.runAndTell W).2.cleanupIfDue W).1 <;> simp [Except.map]

/-- over a store, a cycle fails just if it is followed by a removal of old data for which the calendar does not
go back far enough -/
theorem exists_runOnce_fails_iff {k : StoreSettings} {clock : σ → Instant} (kept : W.IsKept k clock)
    {days : Nat} (own : k.historyDays = days) : (∃ f, (s.runOnce W).1 = .error f) ↔
      s.watch.busy = false ∧ (∃ r, (s.runAndTell W).1 = .ok r) ∧ W.cleanup.isSome = true ∧
        s.watch.settings.autoCleanup = true ∧ s.watch.settings.cleanupEvery ∣ s.watch.cycles + 1 ∧
        (clock (s.runAndTell W).2.world).LacksDays days := by
  have told := isAlike_runAndTell W s
  have due : cleanupDue (s.runAndTell W).2.watch = true ↔ s.watch.settings.autoCleanup = true ∧
      s.watch.settings.cleanupEvery ∣ s.watch.cycles + 1 := by
    have settings : (s.runAndTell W).2.watch.settings = s.watch.settings := told.settings
    have cycles : (s.runAndTell W).2.watch.cycles = s.watch.cycles + 1 := told.cycles
    unfold cleanupDue
    rw [settings, cycles, Bool.and_eq_true, decide_eq_true_eq, Nat.dvd_iff_mod_eq_zero]
  constructor
  · rintro ⟨f, h⟩
    obtain ⟨free, went, h⟩ := runOnce_eq_error_iff.mp h
    obtain ⟨now, ⟨c, hc, failed⟩, foreign⟩ := cleanupIfDue_eq_error_iff.mp h
    obtain ⟨auto, every⟩ := due.mp now
    obtain ⟨store, same⟩ := kept.cleanup c hc (s.runAndTell W).2.world
    have removal : Store.cleanup k (clock (s.runAndTell W).2.world) none store = .error f :=
      map_eq_error.mp (same.symm.trans failed)
    have lacks := (Store.exists_cleanup_fails_iff own (kept.calendar _)).mp ⟨f, removal, foreign⟩
    exact ⟨free, went, by rw [hc]; rfl, auto, every, lacks⟩
  · rintro ⟨free, went, some, auto, every, lacks⟩
    obtain ⟨c, hc⟩ := Option.isSome_iff_exists.mp some
    obtain ⟨store, same⟩ := kept.cleanup c hc (s.runAndTell W).2.world
    obtain ⟨f, removal, foreign⟩ := (Store.exists_cleanup_fails_iff own (kept.calendar _)).mpr lacks
    have failed : (c (s.runAndTell W).2.world).1 = .error f := same.trans (map_eq_error.mpr removal)
    have ended := cleanupIfDue_eq_error_iff.mpr ⟨due.mpr ⟨auto, every⟩, ⟨c, hc, failed⟩, foreign⟩
    exact ⟨f, runOnce_eq_error_iff.mpr ⟨free, went, ended⟩⟩

end Scene

end LintLedger.Watch
