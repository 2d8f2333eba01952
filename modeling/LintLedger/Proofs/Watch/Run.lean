import LintLedger.Proofs.Watch.Cycle
import Mathlib

/-!
# Runs of the watch

A run is laps, each a cycle and a pause.  It ends when the watch has been told to, with the cycle that is the last
one asked for, or because a cycle or a pause fails (`exists_runEnds`); a pause ends when the watch has been told
to end, when the next cycle is due, or because a wait fails (`exists_pauseEnds`).  Nothing that it does changes
the settings or leaves the lock taken, and behind each of its failures stands a cycle that fails or a wait that
cannot be begun (`works_run`).
-/

namespace LintLedger.Watch.Scene

variable {σ ρ α : Type} {W : World σ ρ} {s t u : Scene σ ρ} {f : Failure} {deadline : Float}
  {limit : Option Int} {patience turns n m : Nat}

/-! ### What a run leaves alone, and how it can fail -/

/-- a watch further on: its settings are the same, it has begun no fewer cycles, and it is busy or free as it
was -/
structure GoesOn (s t : Scene σ ρ) : Prop where
  settings : t.watch.settings = s.watch.settings
  cycles : s.watch.cycles ≤ t.watch.cycles
  busy : t.watch.busy = s.watch.busy

theorem IsAlike.goesOn (h : s.IsAlike t) : s.GoesOn t := ⟨h.settings, h.cycles.ge, h.busy⟩

theorem GoesOn.refl (s : Scene σ ρ) : s.GoesOn s := ⟨rfl, le_rfl, rfl⟩

theorem GoesOn.trans (h : s.GoesOn t) (h' : t.GoesOn u) : s.GoesOn u :=
  ⟨h'.settings.trans h.settings, h.cycles.trans h'.cycles, h'.busy.trans h.busy⟩

/-- why a watch can fail from some scene on: a cycle fails, or a wait cannot be begun -/
def CanFail (W : World σ ρ) (s : Scene σ ρ) (f : Failure) : Prop :=
  (∃ t, s.GoesOn t ∧ (t.runOnce W).1 = .error f) ∨ ∃ seconds, W.refuses seconds = some f

theorem CanFail.of_goesOn (h : s.GoesOn t) (later : CanFail W t f) : CanFail W s f := by
  rcases later with ⟨u, further, failed⟩ | refused
  · exact .inl ⟨u, h.trans further, failed⟩
  · exact .inr refused

/-- a piece of the watch's work from some scene on -/
structure Works (W : World σ ρ) (s : Scene σ ρ) (done : Except Failure α × Scene σ ρ) : Prop where
  goesOn : s.GoesOn done.2
  canFail : ∀ f, done.1 = .error f → CanFail W s f

theorem Works.of_goesOn {done : Except Failure α × Scene σ ρ} (h : s.GoesOn t) (later : Works W t done) :
    Works W s done :=
  ⟨h.trans later.goesOn, fun f failed => (later.canFail f failed).of_goesOn h⟩

theorem Works.andThen {β : Type} {done : Except Failure α × Scene σ ρ}
    {more : α → Scene σ ρ → Except Failure β × Scene σ ρ} (first : Works W s done)
    (next : ∀ a t, Works W t (more a t)) : Works W s (Scene.andThen done more) := by
  obtain ⟨outcome, t⟩ := done
  cases outcome with
  | error f => exact ⟨first.goesOn, fun g same => first.canFail g (by cases same; rfl)⟩
  | ok a => exact .of_goesOn first.goesOn (next a t)

theorem works_runOnce : Works W s (s.runOnce W) where
  goesOn := ⟨settings_runOnce W s, by rw [cycles_runOnce]; omega, busy_runOnce W s⟩
  canFail f failed := .inl ⟨s, .refl s, failed⟩

theorem works_heedAll (signals : List Signal) (s : Scene σ ρ) : Works W s (heedAll W signals s) := by
  induction signals generalizing s with
  | nil => exact ⟨.refl s, nofun⟩
  | cons signal rest ih =>
    have heeded := (isAlike_heed W s signal).goesOn
    cases signal with
    | change => exact .of_goesOn heeded (ih _)
    | stop => exact .of_goesOn heeded (ih _)
    | cycle =>
      have ran : Works W s ((s.log (.signalled .cycle)).runOnce W) :=
        .of_goesOn (isAlike_log s _).goesOn works_runOnce
      exact ran.andThen fun r t => .of_goesOn (isAlike_log t _).goesOn (ih _)

theorem works_waitFor (seconds : Float) (s : Scene σ ρ) : Works W s (s.waitFor W seconds) := by
  have logged := (isAlike_log s (.waited seconds s.watch.woken)).goesOn
  unfold waitFor
  dsimp only
  split
  · rename_i f refused
    refine ⟨logged, fun g same => .inr ⟨seconds, ?_⟩⟩
    cases same
    split at refused
    · cases refused
    · exact refused
  · have waited (signals : List Signal) (world : σ) : Works W s
        (heedAll W signals { s.log (.waited seconds s.watch.woken) with world := world }) :=
      .of_goesOn (logged.trans (isAlike_inWorld _ world).goesOn) (works_heedAll signals _)
    exact (waited _ _).andThen fun () t => ⟨⟨rfl, le_rfl, rfl⟩, nofun⟩

theorem goesOn_dueIn (W : World σ ρ) (deadline : Float) (s : Scene σ ρ) :
    s.GoesOn { s with watch := (s.dueIn W deadline).2 } := by
  unfold dueIn
  dsimp only
  split
  · exact .refl s
  · split <;> exact ⟨rfl, le_rfl, rfl⟩

theorem works_awaitTrigger (deadline : Float) (patience : Nat) (s : Scene σ ρ) :
    Works W s (s.awaitTrigger W deadline patience) := by
  induction patience generalizing s with
  | zero => exact ⟨.refl s, nofun⟩
  | succ patience ih =>
    have looked := goesOn_dueIn W deadline s
    unfold awaitTrigger
    split
    · exact ⟨.refl s, nofun⟩
    · split
      · rename_i watch same
        rw [same] at looked
        exact ⟨looked, nofun⟩
      · rename_i seconds watch same
        rw [same] at looked
        exact (Works.of_goesOn looked (works_waitFor seconds _)).andThen fun () t => ih t

theorem works_pause (patience : Nat) (s : Scene σ ρ) : Works W s (s.pause W patience) :=
  works_awaitTrigger _ patience s

/-! ### How a pause ends -/

/-- waits of a pause, one after the other, none of which fails -/
inductive Waits (W : World σ ρ) (deadline : Float) : Nat → Scene σ ρ → Scene σ ρ → Prop
  | none (s : Scene σ ρ) : Waits W deadline 0 s s
  | next {n : Nat} {s t u : Scene σ ρ} {seconds : Float} {watch : Watch ρ} (on : s.watch.stopped = false)
      (due : s.dueIn W deadline = (some seconds, watch))
      (waited : waitFor W seconds { s with watch := watch } = (.ok (), t)) (more : Waits W deadline n t u) :
      Waits W deadline (n + 1) s u

/-- how a pause ends after some waits: the watch has been told to end, the next cycle is due, a wait fails, or
the pause is followed no further -/
inductive PauseEnds (W : World σ ρ) (deadline : Float) (patience n : Nat) (t : Scene σ ρ) :
    Except Failure Unit × Scene σ ρ → Prop
  | stopped (told : t.watch.stopped = true) : PauseEnds W deadline patience n t (.ok (), t)
  | due {watch : Watch ρ} (on : t.watch.stopped = false) (due : t.dueIn W deadline = (none, watch)) :
      PauseEnds W deadline patience n t (.ok (), { t with watch := watch })
  | failed {seconds : Float} {watch : Watch ρ} {f : Failure} {u : Scene σ ρ} (on : t.watch.stopped = false)
      (due : t.dueIn W deadline = (some seconds, watch))
      (wait : waitFor W seconds { t with watch := watch } = (.error f, u)) :
      PauseEnds W deadline patience n t (.error f, u)
  | followed (all : n = patience) : PauseEnds W deadline patience n t (.ok (), t)

/-- **What a pause does.** -/
theorem exists_pauseEnds (W : World σ ρ) (deadline : Float) (patience : Nat) (s : Scene σ ρ) :
    ∃ n t, Waits W deadline n s t ∧ PauseEnds W deadline patience n t (s.awaitTrigger W deadline patience) := by
  induction patience generalizing s with
  | zero => exact ⟨0, s, .none s, .followed rfl⟩
  | succ patience ih =>
    unfold awaitTrigger
    split
    · exact ⟨0, s, .none s, .stopped ‹_›⟩
    · rename_i on
      have on : s.watch.stopped = false := by simpa using on
      split
      · exact ⟨0, s, .none s, .due on ‹_›⟩
      · rename_i seconds watch due
        cases waited : waitFor W seconds { s with watch := watch } with
        | mk outcome t =>
          cases outcome with
          | error f => exact ⟨0, s, .none s, .failed on due waited⟩
          | ok done =>
            obtain ⟨n, u, waits, ends⟩ := ih t
            refine ⟨n + 1, u, .next on due waited waits, ?_⟩
            change PauseEnds W deadline (patience + 1) (n + 1) u (t.awaitTrigger W deadline patience)
            generalize t.awaitTrigger W deadline patience = ended at ends
            cases ends with
            | stopped told => exact .stopped told
            | due on due => exact .due on due
            | failed on due wait => exact .failed on due wait
            | followed all => exact .followed (by rw [all])

/-! ### How a run ends -/

/-- laps of a run, in each of which a cycle ends well and the pause after it does too -/
inductive Laps (W : World σ ρ) (limit : Option Int) (patience : Nat) :
    Nat → Scene σ ρ → Nat → Scene σ ρ → Prop
  | none (n : Nat) (s : Scene σ ρ) : Laps W limit patience n s n s
  | next {n m : Nat} {s t u v : Scene σ ρ} {r : Option ρ} (on : s.watch.stopped = false)
      (cycle : s.runOnce W = (.ok r, t)) (asked : isReached limit (n + 1) = false)
      (pause : t.pause W patience = (.ok (), u)) (more : Laps W limit patience (n + 1) u m v) :
      Laps W limit patience n s m v

/-- how a run ends after some laps: the watch has been told to end, the cycle that follows is the last that was
asked for, that cycle fails or the pause after it does, or the run is followed no further -/
inductive RunEnds (W : World σ ρ) (limit : Option Int) (turns patience n : Nat) (t : Scene σ ρ) :
    Ending σ ρ → Prop
  | stopped (told : t.watch.stopped = true) : RunEnds W limit turns patience n t ⟨t, none, true⟩
  | reached {r : Option ρ} {u : Scene σ ρ} (on : t.watch.stopped = false) (cycle : t.runOnce W = (.ok r, u))
      (last : isReached limit (n + 1) = true) : RunEnds W limit turns patience n t ⟨u, none, true⟩
  | cycleFailed {f : Failure} {u : Scene σ ρ} (on : t.watch.stopped = false)
      (cycle : t.runOnce W = (.error f, u)) : RunEnds W limit turns patience n t ⟨u, some f, true⟩
  | pauseFailed {r : Option ρ} {f : Failure} {u v : Scene σ ρ} (on : t.watch.stopped = false)
      (cycle : t.runOnce W = (.ok r, u)) (pause : u.pause W patience = (.error f, v)) :
      RunEnds W limit turns patience n t ⟨v, some f, true⟩
  | followed (all : n = turns) : RunEnds W limit turns patience n t ⟨t, none, false⟩

theorem exists_runEnds_from (W : World σ ρ) (limit : Option Int) (patience turns n : Nat) (s : Scene σ ρ) :
    ∃ m t, Laps W limit patience n s m t ∧ m ≤ n + turns ∧
      RunEnds W limit (n + turns) patience m t (runTurns W limit patience turns n s) := by
  induction turns generalizing n s with
  | zero => exact ⟨n, s, .none n s, le_rfl, .followed rfl⟩
  | succ turns ih =>
    unfold runTurns
    split
    · exact ⟨n, s, .none n s, by omega, .stopped ‹_›⟩
    · rename_i on
      have on : s.watch.stopped = false := by simpa using on
      split
      · exact ⟨n, s, .none n s, by omega, .cycleFailed on ‹_›⟩
      · rename_i r t cycle
        split
        · exact ⟨n, s, .none n s, by omega, .reached on cycle ‹_›⟩
        · rename_i asked
          have asked : isReached limit (n + 1) = false := by simpa using asked
          split
          · exact ⟨n, s, .none n s, by omega, .pauseFailed on cycle ‹_›⟩
          · rename_i u pause
            obtain ⟨m, v, laps, within, ends⟩ := ih (n + 1) u
            rw [Nat.add_right_comm] at within ends
            exact ⟨m, v, .next on cycle asked pause laps, within, ends⟩

/-- **What a run does.** -/
theorem exists_runEnds (W : World σ ρ) (limit : Option Int) (turns patience : Nat) (s : Scene σ ρ) :
    ∃ n t, Laps W limit patience 0 { s with watch := s.watch.start } n t ∧ n ≤ turns ∧
      RunEnds W limit turns patience n t (s.run W limit turns patience) := by
  have ends := exists_runEnds_from W limit patience turns 0 { s with watch := s.watch.start }
  rwa [Nat.zero_add] at ends

theorem Laps.goesOn (h : Laps W limit patience n s m t) : s.GoesOn t := by
  induction h with
  | none n s => exact .refl s
  | @next n m s t u v r on cycle asked pause more ih =>
    have ran : Works W s (.ok r, t) := cycle ▸ works_runOnce
    have paused : Works W t (.ok (), u) := pause ▸ works_pause patience t
    exact ran.goesOn.trans (paused.goesOn.trans ih)

/-- a free watch runs a cycle in every lap -/
theorem Laps.cycles_le (h : Laps W limit patience n s m t) (free : s.watch.busy = false) :
    s.watch.cycles + m ≤ t.watch.cycles + n := by
  induction h with
  | none n s => exact le_rfl
  | @next n m s t u v r on cycle asked pause more ih =>
    have ran : Works W s (.ok r, t) := cycle ▸ works_runOnce
    have paused : Works W t (.ok (), u) := pause ▸ works_pause patience t
    have one : t.watch.cycles = s.watch.cycles + 1 := by
      have counted := cycles_runOnce W s
      rwa [cycle, free] at counted
    have rest := ih (paused.goesOn.busy.trans (ran.goesOn.busy.trans free))
    have later : t.watch.cycles ≤ u.watch.cycles := paused.goesOn.cycles
    omega

/-- a run leaves the watch as busy as it was, and fails only as the watch can fail at all -/
theorem works_run (W : World σ ρ) (limit : Option Int) (turns patience : Nat) (s : Scene σ ρ) :
    s.GoesOn (s.run W limit turns patience).scene ∧
      ∀ f, (s.run W limit turns patience).failure = some f → CanFail W s f := by
  have started : s.GoesOn { s with watch := s.watch.start } := ⟨rfl, le_rfl, rfl⟩
  obtain ⟨n, t, laps, -, ends⟩ := exists_runEnds W limit turns patience s
  have reached := started.trans laps.goesOn
  generalize s.run W limit turns patience = e at ends ⊢
  cases ends with
  | stopped told => exact ⟨reached, nofun⟩
  | followed all => exact ⟨reached, nofun⟩
  | @reached r u on cycle last =>
    have ran : Works W t (.ok r, u) := cycle ▸ works_runOnce
    exact ⟨reached.trans ran.goesOn, nofun⟩
  | @cycleFailed f u on cycle =>
    have ran : Works W t ((.error f, u) : Except Failure (Option ρ) × Scene σ ρ) := cycle ▸ works_runOnce
    have all := ran.of_goesOn reached
    exact ⟨all.goesOn, fun g same => all.canFail g (by cases same; rfl)⟩
  | @pauseFailed r f u v on cycle pause =>
    have ran : Works W t (.ok r, u) := cycle ▸ works_runOnce
    have paused : Works W u (.error f, v) := pause ▸ works_pause patience u
    have all := paused.of_goesOn (reached.trans ran.goesOn)
    exact ⟨all.goesOn, fun g same => all.canFail g (by cases same; rfl)⟩

end LintLedger.Watch.Scene
