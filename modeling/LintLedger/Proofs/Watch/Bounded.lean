import LintLedger.Proofs.Watch.Books
import LintLedger.Proofs.Watch.Run
import Mathlib

/-!
# Runs of some cycles

A run of `n` cycles is followed from its start to its own end, in a world where nobody else asks for cycles and where
the clock goes on.  What happens is counted from the events: a cycle is one that began (`begun`), and the watch ends
when it has been told to (`IsTold`).  A pause adds no cycle and comes to an end after some number of waits, however
patiently it is followed (`exists_pause`); so a run comes to an end too, with `n` cycles, or with fewer if it was told
to end or a wait could not be begun before (`exists_isBounded`).  A run always begins with a cycle, also if none was
asked for: the number is looked at only behind each cycle (`bounded_run`, `overrun`).
-/

namespace LintLedger.Watch

variable {σ ρ : Type}

/-- how many cycles began -/
def begun (events : List (Event ρ)) : Nat :=
  events.countP fun
    | .began _ _ => true
    | _ => false

/-- whether the watch was told to end -/
def IsTold (events : List (Event ρ)) : Prop := .signalled .stop ∈ events

theorem begun_append (events more : List (Event ρ)) : begun (events ++ more) = begun events + begun more :=
  List.countP_append

theorem isTold_append {events more : List (Event ρ)} : IsTold (events ++ more) ↔ IsTold events ∨ IsTold more :=
  List.mem_append

open Float.Model in
/-- what is less than a time that is over is over, too -/
theorem le_zero_of_lt {a b : Float} (less : a < b) (past : b ≤ 0) : a ≤ 0 := by
  have zero : (0 : Float).toModel.unpack = .zero .positive := rfl
  have less : a.toModel.unpack.lt b.toModel.unpack = true := of_decide_eq_true less
  have past : b.toModel.unpack.le (0 : Float).toModel.unpack = true := of_decide_eq_true past
  refine decide_eq_true (p := a.toModel ≤ (0 : Float).toModel) ?_
  change a.toModel.unpack.le (0 : Float).toModel.unpack = true
  rw [zero] at past ⊢
  generalize a.toModel.unpack = x at less ⊢
  generalize b.toModel.unpack = y at less past
  rcases y with (_ | _) | _ | _ | ⟨_ | _, m, e, _⟩ <;>
    rcases x with (_ | _) | _ | (_ | _) | ⟨_ | _, m', e', _⟩ <;> first | rfl | (cases less; done) | cases past

/-- a world in which nobody asks for a cycle while the watch waits, and in which the clock goes on: from any moment
on, only so many waits for some time can be begun before an interval is over, apart from those that are over at
once -/
structure World.IsSteady (W : World σ ρ) (interval : Float) : Prop where
  quiet : ∀ seconds woken w, .cycle ∉ (W.wait seconds woken w).1
  clock : ∀ start, ∃ left : σ → Nat, ∀ w seconds woken, ¬W.now start + interval - W.now w ≤ 0 → ¬seconds ≤ 0 →
    (woken = false → W.refuses seconds = none) → left (W.wait seconds woken w).2 < left w + woken.toNat

namespace Scene

variable {W : World σ ρ} {s t u : Scene σ ρ} {f : Failure} {new more : List (Event ρ)}
  {seconds deadline interval : Float}

/-! ### What the events tell -/

/-- whether some events tell of a watch how it came about from an earlier one: how many cycles have begun, and whether
it has been told to end -/
structure Tells (new : List (Event ρ)) (s t : Scene σ ρ) : Prop where
  events : t.events = s.events ++ new
  cycles : t.watch.cycles = s.watch.cycles + begun new
  stopped : t.watch.stopped = true ↔ s.watch.stopped = true ∨ IsTold new

/-- whether no cycle begins once the watch has been told to end -/
def HeedsStop (events : List (Event ρ)) : Prop :=
  ∀ before after, events = before ++ .signalled .stop :: after → begun after = 0

theorem heedsStop_of_begun_eq_zero (none : begun new = 0) : HeedsStop new := by
  rintro before after rfl
  have parts : begun before + begun (.signalled .stop :: after) = 0 := begun_append .. ▸ none
  exact (Nat.add_eq_zero_iff.mp parts).2

theorem HeedsStop.append (h : HeedsStop new) (h' : HeedsStop more) (ended : IsTold new → begun more = 0) :
    HeedsStop (new ++ more) := by
  intro before after same
  rcases List.append_eq_append_iff.mp same with ⟨between, -, later⟩ | ⟨between, earlier, later⟩
  · exact h' between after later
  · rcases between with _ | ⟨event, between⟩
    · exact h' [] after later.symm
    · obtain ⟨rfl, rfl⟩ := List.cons.inj later
      have told : IsTold new := earlier ▸ List.mem_append_right _ List.mem_cons_self
      change begun (between ++ more) = 0
      rw [begun_append, h before between earlier, ended told]

theorem heedsStop_began (number : Nat) (time : Float) : HeedsStop ([.began number time] : List (Event ρ)) := by
  rintro (_ | ⟨event, before⟩) after same
  · cases same
  · exact absurd (List.cons.inj same).2 (by simp)

/-- whether no cycle began meanwhile -/
def IsQuiet (s t : Scene σ ρ) : Prop := ∃ new, begun new = 0 ∧ Tells new s t

theorem Tells.refl (s : Scene σ ρ) : Tells [] s s := ⟨(List.append_nil _).symm, rfl, by simp [IsTold]⟩

theorem Tells.trans (h : Tells new s t) (h' : Tells more t u) : Tells (new ++ more) s u where
  events := by rw [h'.events, h.events, List.append_assoc]
  cycles := by rw [h'.cycles, h.cycles, begun_append, Nat.add_assoc]
  stopped := by rw [h'.stopped, h.stopped, isTold_append, or_assoc]

theorem isQuiet_of_same (events : t.events = s.events) (cycles : t.watch.cycles = s.watch.cycles)
    (stopped : t.watch.stopped = s.watch.stopped) : s.IsQuiet t :=
  ⟨[], rfl, events.trans (List.append_nil _).symm, cycles, by simp [IsTold, stopped]⟩

theorem IsQuiet.refl (s : Scene σ ρ) : s.IsQuiet s := isQuiet_of_same rfl rfl rfl

theorem IsQuiet.trans (h : s.IsQuiet t) (h' : t.IsQuiet u) : s.IsQuiet u := by
  obtain ⟨new, none, tells⟩ := h
  obtain ⟨more, none', tells'⟩ := h'
  exact ⟨new ++ more, by rw [begun_append, none, none'], tells.trans tells'⟩

theorem isQuiet_inWorld (s : Scene σ ρ) (w : σ) : s.IsQuiet { s with world := w } :=
  isQuiet_of_same rfl rfl rfl

theorem isQuiet_foldl {α : Type} {step : Scene σ ρ → α → Scene σ ρ}
    (one : ∀ (s : Scene σ ρ) a, s.IsQuiet (step s a)) (items : List α) (s : Scene σ ρ) :
    s.IsQuiet (items.foldl step s) := by
  induction items generalizing s with
  | nil => exact .refl s
  | cons a rest ih => exact (one s a).trans (ih (step s a))

theorem isQuiet_heed (W : World σ ρ) (s : Scene σ ρ) (signal : Signal) : s.IsQuiet (s.heed W signal) := by
  cases signal with
  | change => exact ⟨[.signalled .change], rfl, rfl, rfl, by simp [IsTold, heed, log, notify]⟩
  | stop => exact ⟨[.signalled .stop], rfl, rfl, rfl, by simp [IsTold, heed, log, stop]⟩
  | cycle =>
    exact ⟨[.signalled .cycle, .answered none s.watch.busy], rfl, List.append_assoc .., rfl,
      by simp [IsTold, heed, log]⟩

theorem isQuiet_tellOne (result : Option ρ) (failure : Option Failure) (s : Scene σ ρ)
    (l : (Option ρ → Option Failure → σ → List Signal × σ) × Nat) : s.IsQuiet (tellOne W result failure s l) := by
  have told : s.IsQuiet { s.log (.told l.2 s.watch.cycles result failure) with
      world := (l.1 result failure s.world).2 } :=
    ⟨[_], rfl, rfl, rfl, by simp [IsTold, log]⟩
  exact told.trans (isQuiet_foldl (isQuiet_heed W) _ _)

theorem isQuiet_conclude (outcome : Except Failure ρ) (s : Scene σ ρ) : s.IsQuiet (s.conclude W outcome) := by
  cases outcome with
  | error f =>
    have counted : s.IsQuiet
        { s with watch := { s.watch with failures := s.watch.failures + 1, lastFailure := some f } } :=
      isQuiet_of_same rfl rfl rfl
    exact counted.trans (isQuiet_foldl (isQuiet_tellOne none (some f)) _ _)
  | ok r =>
    have kept : s.IsQuiet { s with watch := { s.watch with lastResult := some r, lastFailure := none } } :=
      isQuiet_of_same rfl rfl rfl
    exact kept.trans (isQuiet_foldl (isQuiet_tellOne (some r) none) _ _)

theorem isQuiet_cleanupIfDue : s.IsQuiet (s.cleanupIfDue W).2 := by
  unfold cleanupIfDue
  split
  · exact .refl s
  · split
    · exact .refl s
    · dsimp only
      split <;> exact ⟨[.cleaned], rfl, rfl, rfl, by simp [IsTold, log]⟩

/-- **One cycle.** It begins, and until it is over none other does. -/
theorem exists_tells_runOnce (tidy : W.IsTidy) (free : s.watch.busy = false) :
    ∃ r t new, s.runOnce W = (.ok r, t) ∧ Tells new s t ∧ begun new = 1 ∧ HeedsStop new := by
  have began : Tells [.began (s.watch.cycles + 1) (W.now s.world)] s (s.beginCycle W) :=
    ⟨rfl, rfl, by simp [IsTold, beginCycle, log]⟩
  have ran : (s.beginCycle W).IsQuiet (s.runAndTell W).2 :=
    (isQuiet_inWorld _ _).trans ((isQuiet_foldl (isQuiet_heed W) _ _).trans (isQuiet_conclude _ _))
  have released (u : Scene σ ρ) : u.IsQuiet u.release :=
    isQuiet_of_same rfl rfl rfl
  have all {t : Scene σ ρ} (quiet : (s.beginCycle W).IsQuiet t) :
      ∃ new, Tells new s t.release ∧ begun new = 1 ∧ HeedsStop new := by
    obtain ⟨new, none, tells⟩ := quiet.trans (released t)
    refine ⟨_, began.trans tells, ?_, (heedsStop_began _ _).append (heedsStop_of_begun_eq_zero none) fun _ => none⟩
    rw [begun_append, none]
    rfl
  cases ended : (s.runAndTell W).1 with
  | error f => exact (all ran).elim fun new told => ⟨_, _, new, runOnce_of_error free ended, told⟩
  | ok r =>
    have went := runOnce_of_ok free ended
    rw [cleanupIfDue_of_isTidy tidy] at went
    exact (all (ran.trans isQuiet_cleanupIfDue)).elim fun new told => ⟨_, _, new, went, told⟩

/-! ### Pauses -/

theorem heedAll_eq_foldl {signals : List Signal} (quiet : .cycle ∉ signals) (s : Scene σ ρ) :
    heedAll W signals s = (.ok (), signals.foldl (heed W) s) := by
  induction signals generalizing s with
  | nil => rfl
  | cons signal rest ih =>
    obtain ⟨other, calm⟩ := not_or.mp (mt List.mem_cons.mpr quiet)
    cases signal with
    | change => exact ih calm _
    | stop => exact ih calm _
    | cycle => exact absurd rfl other

/-- a wait is for some time, and begun only before the deadline -/
theorem dueIn_eq_some {watch : Watch ρ} (due : s.dueIn W deadline = (some seconds, watch)) :
    watch = s.watch ∧ ¬seconds ≤ 0 ∧ ¬deadline - W.now s.world ≤ 0 := by
  have wait {rest : Float} (same : (if rest ≤ 0 then none else some rest) = some seconds) :
      ¬seconds ≤ 0 ∧ seconds = rest := by
    split at same
    · cases same
    · cases same
      exact ⟨‹_›, rfl⟩
  unfold dueIn at due
  dsimp only at due
  split at due
  · obtain ⟨same, rfl⟩ := Prod.mk.inj due
    obtain ⟨some, same⟩ := wait same
    exact ⟨rfl, some, same ▸ some⟩
  · split at due
    · cases due
    · obtain ⟨same, rfl⟩ := Prod.mk.inj due
      obtain ⟨some, same⟩ := wait same
      refine ⟨rfl, some, ?_⟩
      split at same
      · rename_i sooner
        exact mt (le_zero_of_lt (same ▸ sooner)) some
      · exact same ▸ some

theorem isQuiet_dueIn (W : World σ ρ) (deadline : Float) (s : Scene σ ρ) :
    s.IsQuiet { s with watch := (s.dueIn W deadline).2 } := by
  unfold dueIn
  dsimp only
  split
  · exact .refl s
  · split <;> exact isQuiet_of_same rfl rfl rfl

theorem world_foldl_heed (signals : List Signal) (s : Scene σ ρ) : (signals.foldl (heed W) s).world = s.world := by
  induction signals generalizing s with
  | nil => rfl
  | cons signal rest ih =>
    rw [List.foldl_cons, ih]
    cases signal <;> rfl

/-- a wait cannot be begun, or it ends without a cycle, and what has come meanwhile is forgotten -/
theorem exists_waitFor (steady : W.IsSteady interval) (seconds : Float) (s : Scene σ ρ) :
    (∃ f t, W.refuses seconds = some f ∧ s.waitFor W seconds = (.error f, t) ∧ s.IsQuiet t ∧
      t.watch.stopped = s.watch.stopped) ∨
    ∃ t, (s.watch.woken = false → W.refuses seconds = none) ∧ s.waitFor W seconds = (.ok (), t) ∧ s.IsQuiet t ∧
      t.world = (W.wait seconds s.watch.woken s.world).2 ∧ t.watch.woken = false := by
  have logged : s.IsQuiet (s.log (.waited seconds s.watch.woken)) := ⟨[_], rfl, rfl, rfl, by simp [IsTold, log]⟩
  unfold waitFor
  dsimp only
  split
  · rename_i f refused
    split at refused
    · cases refused
    · exact .inl ⟨f, _, refused, rfl, logged, rfl⟩
  · rename_i allowed
    rw [heedAll_eq_foldl (steady.quiet _ _ _)]
    refine .inr ⟨_, fun asleep => ?_, rfl, ?_, ?_, rfl⟩
    · simpa [asleep] using allowed
    · have cleared (u : Scene σ ρ) : u.IsQuiet { u with watch := { u.watch with woken := false } } :=
        isQuiet_of_same rfl rfl rfl
      exact (logged.trans (isQuiet_inWorld _ _)).trans ((isQuiet_foldl (isQuiet_heed W) _ _).trans (cleared _))
    · exact world_foldl_heed _ _

/-- the waits of a pause come to an end -/
theorem exists_awaitTrigger (steady : W.IsSteady interval) {start : σ} {left : σ → Nat}
    (clock : ∀ w seconds woken, ¬W.now start + interval - W.now w ≤ 0 → ¬seconds ≤ 0 →
      (woken = false → W.refuses seconds = none) → left (W.wait seconds woken w).2 < left w + woken.toNat)
    (s : Scene σ ρ) {enough : Nat} (bound : left s.world + s.watch.woken.toNat < enough) :
    ∃ ended : Except Failure Unit × Scene σ ρ,
      (∀ patience, enough ≤ patience → s.awaitTrigger W (W.now start + interval) patience = ended) ∧
      s.IsQuiet ended.2 ∧
      ∀ f, ended.1 = .error f → (∃ seconds, W.refuses seconds = some f) ∧ ended.2.watch.stopped = false := by
  induction enough generalizing s with
  | zero => exact absurd bound (Nat.not_lt_zero _)
  | succ enough ih =>
    -- whoever is patient enough for one wait more sees the watch look at the time once more
    have looks {ended : Except Failure Unit × Scene σ ρ}
        (once : ∀ patience, enough ≤ patience → s.awaitTrigger W (W.now start + interval) (patience + 1) = ended) :
        ∀ patience, enough + 1 ≤ patience → s.awaitTrigger W (W.now start + interval) patience = ended := by
      rintro (_ | patience) more
      · omega
      · exact once patience (by omega)
    cases told : s.watch.stopped with
    | true => exact ⟨(.ok (), s), looks fun patience _ => if_pos told, .refl s, nofun⟩
    | false =>
      have going : ¬s.watch.stopped = true := by simp [told]
      have sight := isQuiet_dueIn W (W.now start + interval) s
      cases due : s.dueIn W (W.now start + interval) with
      | mk wait watch =>
        rw [due] at sight
        cases wait with
        | none =>
          refine ⟨(.ok (), { s with watch := watch }), looks fun patience _ => ?_, sight, nofun⟩
          rw [awaitTrigger, if_neg going, due]
        | some seconds =>
          obtain ⟨rfl, some, before⟩ := dueIn_eq_some due
          have next (patience : Nat) : s.awaitTrigger W (W.now start + interval) (patience + 1) =
              andThen (s.waitFor W seconds) fun () => awaitTrigger W (W.now start + interval) patience := by
            rw [awaitTrigger, if_neg going, due]
          rcases exists_waitFor steady seconds s with ⟨f, t, refused, failed, quiet, same⟩ |
            ⟨t, allowed, waited, quiet, world, asleep⟩
          · refine ⟨(.error f, t), looks fun patience _ => by rw [next, failed]; rfl, quiet, ?_⟩
            rintro g ⟨⟩
            exact ⟨⟨seconds, refused⟩, same.trans told⟩
          · have sooner := clock s.world seconds s.watch.woken before some allowed
            rw [← world] at sooner
            obtain ⟨ended, rest, calm, fails⟩ := ih t (by rw [asleep, Bool.toNat_false]; omega)
            refine ⟨ended, looks fun patience more => ?_, quiet.trans calm, fails⟩
            rw [next, waited]
            exact rest patience more

/-- **A pause comes to an end**, the same for all who follow it patiently enough, and adds no cycle. -/
theorem exists_pause (steady : W.IsSteady s.watch.settings.interval) :
    ∃ (ended : Except Failure Unit × Scene σ ρ) (enough : Nat),
      (∀ patience, enough ≤ patience → s.pause W patience = ended) ∧ s.IsQuiet ended.2 ∧
      ∀ f, ended.1 = .error f → (∃ seconds, W.refuses seconds = some f) ∧ ended.2.watch.stopped = false := by
  obtain ⟨left, clock⟩ := steady.clock s.world
  obtain ⟨ended, all, rest⟩ := exists_awaitTrigger steady clock s (Nat.lt_succ_self _)
  exact ⟨ended, _, all, rest⟩

/-! ### Runs -/

theorem isReached_iff (n done : Nat) : isReached (some n) done = true ↔ n ≤ done := by
  simp [isReached]

/-- whether a watch has come to its end after some more cycles, of which so many were left: after all of them, or
after fewer once it was told to end or could not begin a wait -/
structure IsBounded (W : World σ ρ) (left : Nat) (s : Scene σ ρ) (new : List (Event ρ)) (e : Ending σ ρ) : Prop where
  finished : e.finished = true
  tells : Tells new s e.scene
  within : begun new ≤ left
  resting : s.watch.stopped = true → begun new = 0
  heeds : HeedsStop new
  all : e.failure = none → e.scene.watch.stopped = false → begun new = left
  failure : ∀ f, e.failure = some f → (∃ seconds, W.refuses seconds = some f) ∧ e.scene.watch.stopped = false

theorem isBounded_reached (W : World σ ρ) (s : Scene σ ρ) : IsBounded W 0 s [] ⟨s, none, true⟩ :=
  ⟨rfl, .refl s, le_rfl, fun _ => rfl, heedsStop_of_begun_eq_zero rfl, fun _ _ => rfl, nofun⟩

theorem isBounded_stopped {left : Nat} (told : s.watch.stopped = true) : IsBounded W left s [] ⟨s, none, true⟩ :=
  ⟨rfl, .refl s, Nat.zero_le _, fun _ => rfl, heedsStop_of_begun_eq_zero rfl,
    fun _ going => absurd (told.symm.trans going) nofun, nofun⟩

theorem isBounded_failed {left : Nat} (refused : W.refuses seconds = some f) (going : s.watch.stopped = false) :
    IsBounded W left s [] ⟨s, some f, true⟩ := by
  refine ⟨rfl, .refl s, Nat.zero_le _, fun _ => rfl, heedsStop_of_begun_eq_zero rfl, nofun, ?_⟩
  rintro g ⟨⟩
  exact ⟨⟨seconds, refused⟩, going⟩

/-- one cycle before, with what follows it until the next -/
theorem IsBounded.lap {left : Nat} {e : Ending σ ρ} (h : IsBounded W left t more e) (going : s.watch.stopped = false)
    (tells : Tells new s t) (one : begun new = 1) (heeds : HeedsStop new) :
    IsBounded W (left + 1) s (new ++ more) e where
  finished := h.finished
  tells := tells.trans h.tells
  within := by
    have rest := h.within
    rw [begun_append, one]
    omega
  resting told := absurd (told.symm.trans going) nofun
  heeds := heeds.append h.heeds fun told => h.resting (tells.stopped.mpr (.inr told))
  all went on := by rw [begun_append, one, h.all went on, Nat.add_comm]
  failure := h.failure

theorem runTurns_of_runOnce {limit : Option Int} {patience turns done : Nat} {r : Option ρ}
    (going : s.watch.stopped = false) (ran : s.runOnce W = (.ok r, t)) :
    runTurns W limit patience (turns + 1) done s =
      if isReached limit (done + 1) then ⟨t, none, true⟩
      else
        match t.pause W patience with
        | (.error f, s) => ⟨s, some f, true⟩
        | (.ok (), s) => runTurns W limit patience turns (done + 1) s := by
  rw [runTurns, if_neg (by simp [going])]
  generalize s.runOnce W = ended at ran
  subst ran
  rfl

/-- **A run comes to an end**, the same for all who follow it far enough. -/
theorem exists_isBounded {n : Nat} (tidy : W.IsTidy) (left done : Nat) (all : max n 1 = done + (left + 1))
    (s : Scene σ ρ) (steady : W.IsSteady s.watch.settings.interval) (free : s.watch.busy = false) :
    ∃ (e : Ending σ ρ) (enough : Nat) (new : List (Event ρ)),
      (∀ patience turns, enough ≤ patience → left < turns → runTurns W (some n) patience turns done s = e) ∧
      IsBounded W (left + 1) s new e ∧ (s.watch.stopped = false → 1 ≤ begun new) := by
  induction left using Nat.strongRecOn generalizing done s with
  | ind left ih =>
    -- whoever follows the run for more turns than are left sees the watch look for its next cycle once more
    have looks {e : Ending σ ρ} {enough : Nat} (once : ∀ patience turns, enough ≤ patience → left ≤ turns →
        runTurns W (some n) patience (turns + 1) done s = e) :
        ∀ patience turns, enough ≤ patience → left < turns → runTurns W (some n) patience turns done s = e := by
      rintro patience (_ | turns) patient more
      · exact absurd more (Nat.not_lt_zero _)
      · exact once patience turns patient (Nat.lt_succ_iff.mp more)
    cases told : s.watch.stopped with
    | true => exact ⟨_, 0, [], looks fun _ _ _ _ => if_pos told, isBounded_stopped told, nofun⟩
    | false =>
      obtain ⟨r, t, new, ran, tells, one, heeds⟩ := exists_tells_runOnce tidy free
      have turn (patience turns : Nat) : runTurns W (some n) patience (turns + 1) done s = _ :=
        runTurns_of_runOnce told ran
      rcases left with _ | left
      · have last : isReached (some n) (done + 1) = true := (isReached_iff n _).mpr (by omega)
        have ends := (isBounded_reached W t).lap told tells one heeds
        refine ⟨⟨t, none, true⟩, 0, new, looks fun patience turns _ _ => ?_, ?_, fun _ => one.ge⟩
        · rw [turn, if_pos last]
        · rwa [List.append_nil] at ends
      · have asked : ¬isReached (some n) (done + 1) = true := mt (isReached_iff n _).mp (by omega)
        have on : s.GoesOn t := by
          have works := (works_runOnce (W := W) (s := s)).goesOn
          rwa [ran] at works
        obtain ⟨ended, enough, pause, ⟨more, none, quiet⟩, fails⟩ := exists_pause (on.settings ▸ steady)
        have both := tells.trans quiet
        have one' : begun (new ++ more) = 1 := by rw [begun_append, one, none]
        have heeds' : HeedsStop (new ++ more) := heeds.append (heedsStop_of_begun_eq_zero none) fun _ => none
        obtain ⟨outcome, u⟩ := ended
        cases outcome with
        | error f =>
          obtain ⟨⟨seconds, refused⟩, going⟩ := fails f rfl
          have rest : IsBounded W (left + 1) u [] ⟨u, some f, true⟩ := isBounded_failed refused going
          have ends := rest.lap told both one' heeds'
          refine ⟨⟨u, some f, true⟩, enough, new ++ more, looks fun patience turns patient _ => ?_, ?_,
            fun _ => one'.ge⟩
          · rw [turn, if_neg asked, pause patience patient]
          · rwa [List.append_nil] at ends
        | ok paused =>
          have on' : s.GoesOn u := by
            have works := (works_pause (W := W) enough t).goesOn
            rw [pause enough le_rfl] at works
            exact on.trans works
          obtain ⟨e, enough', rest, follow, ends, -⟩ := ih left (Nat.lt_succ_self left) (done + 1) (by omega) u
            (on'.settings ▸ steady) (on'.busy.trans free)
          refine ⟨e, max enough enough', new ++ more ++ rest, looks fun patience turns patient further => ?_,
            ends.lap told both one' heeds', fun _ => ?_⟩
          · rw [turn, if_neg asked, pause patience ((le_max_left _ _).trans patient)]
            exact follow patience turns ((le_max_right _ _).trans patient) further
          · rw [begun_append, one']
            exact Nat.le_add_right _ _

/-- **A run of `n` cycles.** Take a watch that is free, in a world where nobody else asks for cycles, the clock goes
on, and the removal of old data fails at most in the store itself, whatever its cycles and listeners do.  Its run of
`n` cycles comes to an end, the same for all who follow it far enough; it fails only over a wait that cannot be begun.
It begins at least one cycle and at most `n`, or one if `n` is zero: just so many if it does not fail and is not told
to end, and if it is told to end, those that had begun until then, the cycle in which it was told included. -/
theorem bounded_run (W : World σ ρ) (listeners : List (Listener σ ρ)) (n : Nat) (s : Scene σ ρ) (tidy : W.IsTidy)
    (steady : W.IsSteady s.watch.settings.interval) (free : s.watch.busy = false) :
    ∃ (e : Ending σ ρ) (enough : Nat) (new : List (Event ρ)),
      (∀ patience turns, enough ≤ patience → max n 1 ≤ turns →
        s.run (W.heardBy listeners) (some n) turns patience = e) ∧
      e.finished = true ∧ e.scene.events = s.events ++ new ∧ e.scene.watch.cycles = s.watch.cycles + begun new ∧
      (∀ f, e.failure = some f → ∃ seconds, W.refuses seconds = some f) ∧
      (1 ≤ begun new ∧ begun new ≤ max n 1) ∧
      (e.failure = none → .signalled .stop ∉ new → begun new = max n 1) ∧
      ∀ before after, new = before ++ .signalled .stop :: after → e.failure = none ∧ begun new = begun before := by
  have positive : max n 1 = 0 + ((max n 1 - 1) + 1) := by omega
  have steady' : (W.heardBy listeners).IsSteady s.watch.settings.interval := ⟨steady.quiet, steady.clock⟩
  obtain ⟨e, enough, new, follow, ends, starts⟩ := exists_isBounded (W := W.heardBy listeners) tidy (max n 1 - 1) 0
    positive { s with watch := s.watch.start } steady' free
  have stopped : e.scene.watch.stopped = true ↔ IsTold new := by simpa [start] using ends.tells.stopped
  refine ⟨e, enough, new, fun patience turns patient further => follow patience turns patient (by omega),
    ends.finished, ends.tells.events, ends.tells.cycles, fun f failed => (ends.failure f failed).1,
    ⟨starts rfl, ends.within.trans (by omega)⟩, fun went untold => ?_, ?_⟩
  · have on : e.scene.watch.stopped = false := Bool.eq_false_iff.mpr (mt stopped.mp untold)
    exact (ends.all went on).trans (by omega)
  · rintro before after same
    have told : e.scene.watch.stopped = true := stopped.mpr (same ▸ List.mem_append_right _ List.mem_cons_self)
    refine ⟨?_, ?_⟩
    · cases failed : e.failure with
      | none => rfl
      | some f => exact absurd (told.symm.trans (ends.failure f failed).2) nofun
    · rw [same, begun_append]
      exact congrArg (begun before + ·) (ends.heeds before after same)

/-- a world in which each cycle goes well, and whose clock leaps ahead with the first wait -/
def leaping : World Bool Nat where
  now late := if late then 1e17 else 0
  cycle number late := ([.change], .ok number, late)
  wait _ _ _ := ([.change], true)
  listeners := []
  cleanup := none

/-- a listener that ends the watch in its second cycle, and fails -/
def stopsSecond : Listener Bool Nat := fun result _ late =>
  (if result = some 2 then [.stop] else [], .error .noStore, late)

/-- a watch of that world before its first cycle -/
def fresh : Scene Bool Nat := ⟨false, { settings := {} }, []⟩

set_option maxRecDepth 8000 in
/-- a run of five cycles that is told to end in the second ends with it -/
theorem bounded_run_stopped : leaping.IsTidy ∧ leaping.IsSteady 3 ∧ fresh.watch.busy = false ∧
    ∃ e enough, (∀ patience turns, enough ≤ patience → 5 ≤ turns →
      fresh.run (leaping.heardBy [stopsSecond]) (some (5 : Nat)) turns patience = e) ∧
    e.finished = true ∧ e.failure = none ∧ e.scene.watch.cycles = 2 := by
  have tidy : leaping.IsTidy := nofun
  have steady : leaping.IsSteady 3 := by
    refine ⟨by simp [leaping], fun start => ⟨fun late => if late then 0 else 1, ?_⟩⟩
    intro late seconds woken before some allowed
    cases late with
    | false => exact Nat.lt_add_right _ Nat.zero_lt_one
    | true => cases start <;> exact absurd (by decide) before
  obtain ⟨e, enough, new, follow, finished, -, -, fails, -⟩ :=
    bounded_run leaping [stopsSecond] 5 fresh tidy steady rfl
  refine ⟨tidy, steady, rfl, e, enough, follow, finished, ?_, ?_⟩
  · cases failed : e.failure with
    | none => rfl
    | some f => exact (fails f failed).elim nofun
  · rw [← follow (enough + 2) 5 (by omega) le_rfl]
    rfl

/-- a run of no cycles runs one -/
theorem overrun : (fresh.run leaping (some (0 : Nat)) 1 0).finished = true ∧
    (fresh.run leaping (some (0 : Nat)) 1 0).failure = none ∧
    (fresh.run leaping (some (0 : Nat)) 1 0).scene.watch.stopped = false ∧
    (fresh.run leaping (some (0 : Nat)) 1 0).scene.watch.cycles = 1 :=
  ⟨rfl, rfl, rfl, rfl⟩

end Scene

end LintLedger.Watch
