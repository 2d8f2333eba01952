import LintLedger.Failure
import LintLedger.Settings

/-!
# The watch

Cycles are run over and over: one after each interval, or earlier once changes have been signalled
and none has followed for a while.  Two cycles never overlap: what asks for a cycle while one runs
gets nothing.  A cycle that fails is counted and told to the listeners, and the watch goes on.  How a
listener ends is not asked.  A wait that the clock cannot measure fails, and the watch with it.

What the watch does is kept as a history of events.  The world around it, with its clock, its cycles
and its waits, is given by what each of these does to a state of the world and by the signals that
arrive meanwhile.
-/

namespace LintLedger

/-- a signal that reaches the watch from outside -/
inductive Watch.Signal where
  /-- something has changed -/
  | change
  /-- the watch is to end -/
  | stop
  /-- a cycle is asked for at once -/
  | cycle
deriving Repr, DecidableEq

/-- something that the watch did or met -/
inductive Watch.Event (ρ : Type) where
  /-- a cycle of this number began at this time -/
  | began (number : Nat) (time : Float)
  | signalled (signal : Watch.Signal)
  /-- what came of a cycle that a signal asked for, and whether another was running -/
  | answered (result : Option ρ) (busy : Bool)
  /-- the listener at a place was told of a cycle of this number -/
  | told (listener number : Nat) (result : Option ρ) (failure : Option Failure)
  /-- old data were to be removed -/
  | cleaned
  /-- a wait of some seconds began, with or without a change that was signalled before -/
  | waited (seconds : Float) (woken : Bool)

/-- the watch between two events -/
structure Watch (ρ : Type) where
  settings : WatchSettings
  cycles : Nat := 0
  failures : Nat := 0
  lastResult : Option ρ := none
  lastFailure : Option Failure := none
  /-- when the last change was signalled that no cycle has followed -/
  changed : Option Float := none
  stopped : Bool := false
  /-- whether a signal has come since the last wait -/
  woken : Bool := false
  /-- whether a cycle is running -/
  busy : Bool := false

/-- a listener: the signals that arrive while it is told of a cycle, and how it ends -/
abbrev Watch.Listener (σ ρ : Type) : Type :=
  Option ρ → Option Failure → σ → List Watch.Signal × Except Failure Unit × σ

/-- a listener as the watch hears of it: a failure is passed over -/
def Watch.Listener.guarded {σ ρ : Type} (l : Watch.Listener σ ρ) :
    Option ρ → Option Failure → σ → List Watch.Signal × σ :=
  fun result failure s =>
    let (signals, _, s) := l result failure s
    (signals, s)

/-- the world around a watch -/
structure Watch.World (σ ρ : Type) where
  now : σ → Float
  /-- the cycle of a number, and the signals that arrive while it runs -/
  cycle : Nat → σ → List Watch.Signal × Except Failure ρ × σ
  /-- a wait of at most some seconds, which is over at once if a signal has come before -/
  wait : Float → Bool → σ → List Watch.Signal × σ
  /-- what each listener does when it is told of a cycle, up to its end or its failure -/
  listeners : List (Option ρ → Option Failure → σ → List Watch.Signal × σ)
  /-- removing old data, if there is a store -/
  cleanup : Option (σ → Except Failure Unit × σ)
  /-- why a wait of some seconds cannot be begun, if it cannot -/
  refuses : Float → Option Failure := fun _ => none

/-- a world in which these listen -/
def Watch.World.heardBy {σ ρ : Type} (W : Watch.World σ ρ) (listeners : List (Watch.Listener σ ρ)) :
    Watch.World σ ρ :=
  { W with listeners := listeners.map Watch.Listener.guarded }

/-- a watch in its world, with all that has happened -/
structure Watch.Scene (σ ρ : Type) where
  world : σ
  watch : Watch ρ
  events : List (Watch.Event ρ)

namespace Watch

variable {σ ρ : Type}

/-- the watch with a change signalled -/
def notify (w : Watch ρ) (now : Float) : Watch ρ := { w with changed := some now, woken := true }

/-- the watch told to end -/
def stop (w : Watch ρ) : Watch ρ := { w with stopped := true, woken := true }

/-- the watch as it starts to run, whatever it was told before -/
def start (w : Watch ρ) : Watch ρ := { w with stopped := false }

namespace Scene

/-- with one more event -/
def log (s : Scene σ ρ) (e : Event ρ) : Scene σ ρ := { s with events := s.events ++ [e] }

/-- a signal that arrives while a cycle runs -/
def heed (W : World σ ρ) (s : Scene σ ρ) (signal : Signal) : Scene σ ρ :=
  let s := s.log (.signalled signal)
  match signal with
  | .change => { s with watch := s.watch.notify (W.now s.world) }
  | .stop => { s with watch := s.watch.stop }
  | .cycle => s.log (.answered none s.watch.busy)

/-- one listener told of the running cycle -/
def tellOne (W : World σ ρ) (result : Option ρ) (failure : Option Failure) (s : Scene σ ρ)
    (l : (Option ρ → Option Failure → σ → List Signal × σ) × Nat) : Scene σ ρ :=
  let s := s.log (.told l.2 s.watch.cycles result failure)
  let (signals, world) := l.1 result failure s.world
  signals.foldl (heed W) { s with world := world }

/-- all listeners told of the running cycle, in their order -/
def tell (W : World σ ρ) (result : Option ρ) (failure : Option Failure) (s : Scene σ ρ) :
    Scene σ ρ :=
  W.listeners.zipIdx.foldl (tellOne W result failure) s

/-- whether old data are to be removed after a cycle that went well -/
def cleanupDue (w : Watch ρ) : Bool :=
  w.settings.autoCleanup && w.cycles % w.settings.cleanupEvery = 0

/-- the removal of old data, if it is due; only a failure of the store itself is passed over -/
def cleanupIfDue (W : World σ ρ) (s : Scene σ ρ) : Except Failure Unit × Scene σ ρ :=
  match W.cleanup with
  | none => (.ok (), s)
  | some cleanup =>
    if !cleanupDue s.watch then (.ok (), s)
    else
      let s := s.log .cleaned
      let (result, world) := cleanup s.world
      let s := { s with world := world }
      match result with
      | .ok () => (.ok (), s)
      | .error f => (if f.kind = .storage then .ok () else .error f, s)

/-- a watch that is free again -/
def release (s : Scene σ ρ) : Scene σ ρ := { s with watch := { s.watch with busy := false } }

/-- a watch that begins its next cycle -/
def beginCycle (W : World σ ρ) (s : Scene σ ρ) : Scene σ ρ :=
  let number := s.watch.cycles + 1
  { s with watch := { s.watch with cycles := number, busy := true } }.log
    (.began number (W.now s.world))

/-- what came of a cycle taken down and told to all listeners -/
def conclude (W : World σ ρ) (outcome : Except Failure ρ) (s : Scene σ ρ) : Scene σ ρ :=
  match outcome with
  | .error f =>
    { s with watch :=
      { s.watch with failures := s.watch.failures + 1, lastFailure := some f } }.tell W none (some f)
  | .ok r =>
    { s with watch := { s.watch with lastResult := some r, lastFailure := none } }.tell W (some r) none

/-- what came of a cycle, and the watch once all listeners have been told of it -/
def runAndTell (W : World σ ρ) (s : Scene σ ρ) : Except Failure ρ × Scene σ ρ :=
  let s := s.beginCycle W
  let (signals, outcome, world) := W.cycle s.watch.cycles s.world
  (outcome, (signals.foldl (heed W) { s with world := world }).conclude W outcome)

/-- one cycle; nothing comes of it if another is running or if it fails -/
def runOnce (W : World σ ρ) (s : Scene σ ρ) : Except Failure (Option ρ) × Scene σ ρ :=
  if s.watch.busy then (.ok none, s)
  else
    match s.runAndTell W with
    | (.error _, s) => (.ok none, s.release)
    | (.ok r, s) =>
      let (cleaned, s) := s.cleanupIfDue W
      (cleaned.map fun _ => some r, s.release)

/-- a piece of work, and more work if it went well -/
def andThen {α β : Type} (done : Except Failure α × Scene σ ρ)
    (more : α → Scene σ ρ → Except Failure β × Scene σ ρ) : Except Failure β × Scene σ ρ :=
  match done with
  | (.error f, s) => (.error f, s)
  | (.ok a, s) => more a s

/-- signals that arrive while the watch waits, up to the first that makes it fail -/
def heedAll (W : World σ ρ) : List Signal → Scene σ ρ → Except Failure Unit × Scene σ ρ
  | [], s => (.ok (), s)
  | .cycle :: rest, s =>
    andThen ((s.log (.signalled .cycle)).runOnce W) fun r s =>
      heedAll W rest (s.log (.answered r s.watch.busy))
  | signal :: rest, s => heedAll W rest (s.heed W signal)

/-- the seconds until the next cycle is due, none if it is due now; a change that has been quiet for
long enough is taken up -/
def dueIn (W : World σ ρ) (deadline : Float) (s : Scene σ ρ) : Option Float × Watch ρ :=
  let now := W.now s.world
  let rest := deadline - now
  match s.watch.changed with
  | none => (if rest ≤ 0 then none else some rest, s.watch)
  | some time =>
    let ready := time + s.watch.settings.debounce
    if ready ≤ now then (none, { s.watch with changed := none })
    else
      let rest := if ready - now < rest then ready - now else rest
      (if rest ≤ 0 then none else some rest, s.watch)

/-- one wait, unless it cannot be begun; what has come by its end is forgotten -/
def waitFor (W : World σ ρ) (seconds : Float) (s : Scene σ ρ) : Except Failure Unit × Scene σ ρ :=
  let woken := s.watch.woken
  let s := s.log (.waited seconds woken)
  match if woken then none else W.refuses seconds with
  | some f => (.error f, s)
  | none =>
    let (signals, world) := W.wait seconds woken s.world
    andThen (heedAll W signals { s with world := world }) fun () s =>
      (.ok (), { s with watch := { s.watch with woken := false } })

/-- waits until the next cycle is due or the watch has to end, at most so many times -/
def awaitTrigger (W : World σ ρ) (deadline : Float) :
    Nat → Scene σ ρ → Except Failure Unit × Scene σ ρ
  | 0, s => (.ok (), s)
  | patience + 1, s =>
    if s.watch.stopped then (.ok (), s)
    else
      match dueIn W deadline s with
      | (none, watch) => (.ok (), { s with watch := watch })
      | (some seconds, watch) =>
        andThen (waitFor W seconds { s with watch := watch }) fun () =>
          awaitTrigger W deadline patience

/-- the pause after a cycle, of at most so many waits -/
def pause (W : World σ ρ) (patience : Nat) (s : Scene σ ρ) : Except Failure Unit × Scene σ ρ :=
  s.awaitTrigger W (W.now s.world + s.watch.settings.interval) patience

/-- how a run of the watch ended -/
structure Ending (σ ρ : Type) where
  scene : Scene σ ρ
  failure : Option Failure
  /-- whether the watch came to its own end rather than to that of its turns -/
  finished : Bool

/-- whether so many cycles are all that were asked for -/
def isReached (limit : Option Int) (done : Nat) : Bool := limit.any fun n => n ≤ (done : Int)

/-- cycles until the watch has to end or `limit` of them have been run, at most so many more -/
def runTurns (W : World σ ρ) (limit : Option Int) (patience : Nat) :
    Nat → Nat → Scene σ ρ → Ending σ ρ
  | 0, _, s => ⟨s, none, false⟩
  | turns + 1, done, s =>
    if s.watch.stopped then ⟨s, none, true⟩
    else
      match s.runOnce W with
      | (.error f, s) => ⟨s, some f, true⟩
      | (.ok _, s) =>
        if isReached limit (done + 1) then ⟨s, none, true⟩
        else
          match s.pause W patience with
          | (.error f, s) => ⟨s, some f, true⟩
          | (.ok (), s) => runTurns W limit patience turns (done + 1) s

/-- the watch from its start: it ends when it is told to, or after `limit` cycles.  It is followed for
at most `turns` cycles, and in each pause for at most `patience` waits. -/
def run (W : World σ ρ) (limit : Option Int) (turns patience : Nat) (s : Scene σ ρ) : Ending σ ρ :=
  runTurns W limit patience turns 0 { s with watch := s.watch.start }

end Scene

end Watch

end LintLedger
