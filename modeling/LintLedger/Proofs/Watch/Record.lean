import LintLedger.Proofs.Watch.Cycle
import Mathlib

/-!
# What the watch calls

A watch calls into its world: for its cycles, for each of its listeners, and for the removal of old data.  In a
recorded world every such call is taken down as it is made (`World.recorded`).  Taking down changes nothing:
whatever is asked of the watch, it does the same in the world itself (`bare_runOnce`, `bare_heedAll`).
-/

namespace LintLedger.Watch

variable {σ ρ : Type}

/-- a call that a watch makes into its world -/
inductive Call (ρ : Type) where
  /-- for the cycle of a number, with what came of it -/
  | cycle (number : Nat) (outcome : Except Failure ρ)
  /-- for the listener at a place, with what it was told -/
  | listener (place : Nat) (result : Option ρ) (failure : Option Failure)
  /-- for the removal of old data -/
  | cleanup

/-- a listener at a place, of which every call is taken down -/
def recordedListener (l : (Option ρ → Option Failure → σ → List Signal × σ) × Nat) :
    Option ρ → Option Failure → σ × List (Call ρ) → List Signal × (σ × List (Call ρ)) :=
  fun result failure s =>
    let (signals, world) := l.1 result failure s.1
    (signals, world, s.2 ++ [.listener l.2 result failure])

/-- a world in which the calls of the watch are taken down, one after the other -/
def World.recorded (W : World σ ρ) : World (σ × List (Call ρ)) ρ where
  now s := W.now s.1
  cycle number s :=
    let (signals, outcome, world) := W.cycle number s.1
    (signals, outcome, world, s.2 ++ [.cycle number outcome])
  wait seconds woken s :=
    let (signals, world) := W.wait seconds woken s.1
    (signals, world, s.2)
  listeners := W.listeners.zipIdx.map recordedListener
  cleanup := W.cleanup.map fun cleanup s =>
    let (outcome, world) := cleanup s.1
    (outcome, world, s.2 ++ [.cleanup])
  refuses := W.refuses

namespace Scene

variable {W : World σ ρ} {s : Scene (σ × List (Call ρ)) ρ} {result : Option ρ} {failure : Option Failure}

/-- a scene without what has been taken down -/
def bare (s : Scene (σ × List (Call ρ)) ρ) : Scene σ ρ := ⟨s.world.1, s.watch, s.events⟩

theorem bare_heed (signal : Signal) : (s.heed W.recorded signal).bare = s.bare.heed W signal := by
  cases signal <;> rfl

theorem bare_foldl_heed (signals : List Signal) :
    (signals.foldl (heed W.recorded) s).bare = signals.foldl (heed W) s.bare := by
  induction signals generalizing s with
  | nil => rfl
  | cons signal rest ih => rw [List.foldl_cons, ih, bare_heed, List.foldl_cons]

theorem bare_tellOne (l : (Option ρ → Option Failure → σ → List Signal × σ) × Nat) :
    (tellOne W.recorded result failure s (recordedListener l, l.2)).bare =
      tellOne W result failure s.bare l :=
  bare_foldl_heed _

/-- the recorded listeners at their places -/
theorem zipIdx_recordedListener (listeners : List (Option ρ → Option Failure → σ → List Signal × σ)) (place : Nat) :
    ((listeners.zipIdx place).map recordedListener).zipIdx place =
      (listeners.zipIdx place).map fun l => (recordedListener l, l.2) := by
  induction listeners generalizing place with
  | nil => rfl
  | cons l rest ih => rw [List.zipIdx_cons, List.map_cons, List.zipIdx_cons, ih, List.map_cons]

theorem tell_recorded (result : Option ρ) (failure : Option Failure) (s : Scene (σ × List (Call ρ)) ρ) :
    s.tell W.recorded result failure = W.listeners.zipIdx.foldl
      (fun s l => tellOne W.recorded result failure s (recordedListener l, l.2)) s := by
  unfold tell
  rw [World.recorded, zipIdx_recordedListener, List.foldl_map]

theorem bare_tell : (s.tell W.recorded result failure).bare = s.bare.tell W result failure := by
  rw [tell_recorded]
  unfold tell
  generalize W.listeners.zipIdx = listeners
  induction listeners generalizing s with
  | nil => rfl
  | cons l rest ih => rw [List.foldl_cons, ih, bare_tellOne, List.foldl_cons]

theorem bare_conclude (outcome : Except Failure ρ) :
    (s.conclude W.recorded outcome).bare = s.bare.conclude W outcome := by
  cases outcome <;> exact bare_tell

theorem bare_runAndTell : (s.runAndTell W.recorded).1 = (s.bare.runAndTell W).1 ∧
    (s.runAndTell W.recorded).2.bare = (s.bare.runAndTell W).2 := by
  refine ⟨rfl, (bare_conclude _).trans ?_⟩
  rw [bare_foldl_heed]
  rfl

theorem bare_cleanupIfDue : (s.cleanupIfDue W.recorded).1 = (s.bare.cleanupIfDue W).1 ∧
    (s.cleanupIfDue W.recorded).2.bare = (s.bare.cleanupIfDue W).2 := by
  unfold cleanupIfDue World.recorded
  cases W.cleanup with
  | none => exact ⟨rfl, rfl⟩
  | some cleanup =>
    have same : s.bare.watch = s.watch := rfl
    dsimp only [Option.map_some]
    rw [same]
    split
    · exact ⟨rfl, rfl⟩
    · have begun : (s.log .cleaned).world = s.world := rfl
      have begun' : (s.bare.log .cleaned).world = s.world.1 := rfl
      rw [begun, begun']
      obtain ⟨outcome, world⟩ := cleanup s.world.1
      cases outcome <;> exact ⟨rfl, rfl⟩

/-- **Taking down changes nothing of a cycle.** -/
theorem bare_runOnce : (s.runOnce W.recorded).1 = (s.bare.runOnce W).1 ∧
    (s.runOnce W.recorded).2.bare = (s.bare.runOnce W).2 := by
  obtain ⟨outcome, told⟩ := bare_runAndTell (W := W) (s := s)
  cases busy : s.watch.busy with
  | true =>
    have busy' : s.bare.watch.busy = true := busy
    rw [runOnce_of_busy busy, runOnce_of_busy busy']
    exact ⟨rfl, rfl⟩
  | false =>
    have busy' : s.bare.watch.busy = false := busy
    cases ended : (s.runAndTell W.recorded).1 with
    | error f =>
      rw [runOnce_of_error busy ended, runOnce_of_error busy' (outcome.symm.trans ended), ← told]
      exact ⟨rfl, rfl⟩
    | ok r =>
      obtain ⟨cleaned, after⟩ := bare_cleanupIfDue (W := W) (s := (s.runAndTell W.recorded).2)
      rw [runOnce_of_ok busy ended, runOnce_of_ok busy' (outcome.symm.trans ended), ← told, ← cleaned, ← after]
      exact ⟨rfl, rfl⟩

/-- **Taking down changes nothing**, whatever is asked of the watch. -/
theorem bare_heedAll (signals : List Signal) (s : Scene (σ × List (Call ρ)) ρ) :
    (heedAll W.recorded signals s).1 = (heedAll W signals s.bare).1 ∧
      (heedAll W.recorded signals s).2.bare = (heedAll W signals s.bare).2 := by
  induction signals generalizing s with
  | nil => exact ⟨rfl, rfl⟩
  | cons signal rest ih =>
    cases signal with
    | change => exact ih _
    | stop => exact ih _
    | cycle =>
      obtain ⟨outcome, after⟩ := bare_runOnce (W := W) (s := s.log (.signalled .cycle))
      unfold heedAll
      change _ = (andThen ((s.log (.signalled .cycle)).bare.runOnce W) _).1 ∧
        _ = (andThen ((s.log (.signalled .cycle)).bare.runOnce W) _).2
      generalize (s.log (.signalled .cycle)).runOnce W.recorded = run at outcome after
      generalize (s.log (.signalled .cycle)).bare.runOnce W = plain at outcome after
      obtain ⟨result, u⟩ := run
      obtain ⟨result', u'⟩ := plain
      cases outcome
      cases after
      cases result with
      | error f => exact ⟨rfl, rfl⟩
      | ok r => exact ih _

end Scene

end LintLedger.Watch
