import LintLedger.Proofs.Watch.Record
import Mathlib

/-!
# The books of the watch

What goes on while a cycle runs leaves the books of the watch alone, and whoever asks for a cycle meanwhile gets
nothing (`IsInside`).  So one cycle adds one outcome to the books, and calls into the world as its outcome asks
(`IsBooked.runOnce`): it is counted, and as a failure if it failed; its result, or its failure, is kept as the last;
every listener is told of it once, one after the other; and old data are removed behind it if it went well and its
number says so.  Over any requests, one after the other, the books are those of the outcomes of all cycles
(`books_kept`).
-/

namespace LintLedger.Watch

variable {σ ρ : Type}

/-- a world in which the removal of old data fails, if it does, in the store itself -/
def World.IsTidy (W : World σ ρ) : Prop :=
  ∀ cleanup, W.cleanup = some cleanup → ∀ w f, (cleanup w).1 = .error f → f.kind = .storage

theorem World.IsTidy.recorded {W : World σ ρ} (tidy : W.IsTidy) : W.recorded.IsTidy := by
  intro cleanup kept w f failed
  obtain ⟨plain, some, rfl⟩ := Option.map_eq_some_iff.mp kept
  exact tidy plain some w.1 f failed

/-- what went wrong, if anything did -/
def failureOf? : Except Failure ρ → Option Failure
  | .ok _ => none
  | .error f => some f

/-- the calls of one cycle: for the cycle itself, then for each listener, told of the result or of the failure, and
for the removal of old data if the cycle went well, there is a store, and the removal is on and due -/
def callsOf (k : WatchSettings) (listeners : Nat) (hasStore : Bool) (number : Nat) (outcome : Except Failure ρ) :
    List (Call ρ) :=
  .cycle number outcome ::
    ((List.range listeners).map fun place => .listener place outcome.toOption (failureOf? outcome)) ++
    if outcome.isOk = true ∧ hasStore = true ∧ k.autoCleanup = true ∧ k.cleanupEvery ∣ number then [.cleanup] else []

/-- what was answered to those who asked for a cycle while none was running -/
def answered (events : List (Event ρ)) : List (Option ρ) :=
  events.filterMap fun
    | .answered result false => some result
    | _ => none

/-- whether all who asked for a cycle asked while one was running, and got nothing -/
def AreRefused (events : List (Event ρ)) : Prop :=
  ∀ result busy, .answered result busy ∈ events → result = none ∧ busy = true

theorem AreRefused.append {events more : List (Event ρ)} (h : AreRefused events) (h' : AreRefused more) :
    AreRefused (events ++ more) :=
  fun result busy mem => (List.mem_append.mp mem).elim (h result busy) (h' result busy)

/-- whether the results of some outcomes were given to those who asked while no cycle was running, one after the
other, and nothing to those who asked while one was -/
structure HasAnswered (outcomes : List (Except Failure ρ)) (events : List (Event ρ)) : Prop where
  answers : answered events = outcomes.map Except.toOption
  refused : ∀ result, .answered result true ∈ events → result = none

theorem AreRefused.answered_eq {events : List (Event ρ)} (h : AreRefused events) : answered events = [] := by
  refine List.filterMap_eq_nil_iff.mpr fun e he => ?_
  cases e with
  | answered result busy => exact (h result busy he).2 ▸ rfl
  | _ => rfl

theorem HasAnswered.append {outcomes : List (Except Failure ρ)} {events new : List (Event ρ)}
    (h : HasAnswered outcomes events) (inner : AreRefused new) : HasAnswered outcomes (events ++ new) where
  answers := by
    rw [answered, List.filterMap_append, ← answered, ← answered, h.answers, inner.answered_eq, List.append_nil]
  refused result mem := (List.mem_append.mp mem).elim (h.refused result) fun new => (inner result true new).1

theorem HasAnswered.concat {outcomes : List (Except Failure ρ)} {events : List (Event ρ)}
    (h : HasAnswered outcomes events) (outcome : Except Failure ρ) :
    HasAnswered (outcomes ++ [outcome]) (events ++ [.answered outcome.toOption false]) where
  answers := by
    rw [answered, List.filterMap_append, ← answered, h.answers, List.map_append]
    rfl
  refused result mem := h.refused result (by simpa using mem)

namespace Scene

variable {W : World σ ρ} {s t u : Scene (σ × List (Call ρ)) ρ} {result : Option ρ} {failure : Option Failure}
  {calls more : List (Call ρ)} {outcomes : List (Except Failure ρ)} {outcome : Except Failure ρ} {r : ρ} {f : Failure}

/-- a watch that is busy has nothing for those who ask for a cycle: the request starts none and gets nothing -/
theorem heed_cycle_of_busy {s : Scene σ ρ} (busy : s.watch.busy = true) :
    (s.log (.signalled .cycle)).runOnce W = (.ok none, s.log (.signalled .cycle)) ∧
      s.heed W .cycle = (s.log (.signalled .cycle)).log (.answered none true) := by
  refine ⟨runOnce_of_busy busy, ?_⟩
  rw [← busy]
  rfl

/-! ### What goes on inside a cycle -/

/-- whether a watch goes on inside a cycle, with some calls into the world: its books stay as they are, and all who
ask for a cycle are refused -/
structure IsInside (calls : List (Call ρ)) (s t : Scene (σ × List (Call ρ)) ρ) : Prop where
  alike : s.IsAlike t
  failures : t.watch.failures = s.watch.failures
  lastResult : t.watch.lastResult = s.watch.lastResult
  lastFailure : t.watch.lastFailure = s.watch.lastFailure
  calls : t.world.2 = s.world.2 ++ calls
  events : ∃ new, t.events = s.events ++ new ∧ AreRefused new

theorem IsInside.refl (s : Scene (σ × List (Call ρ)) ρ) : IsInside [] s s :=
  ⟨.refl s, rfl, rfl, rfl, (List.append_nil _).symm, [], (List.append_nil _).symm, nofun⟩

theorem IsInside.trans (h : IsInside calls s t) (h' : IsInside more t u) : IsInside (calls ++ more) s u := by
  obtain ⟨new, events, refused⟩ := h.events
  obtain ⟨new', events', refused'⟩ := h'.events
  refine ⟨h.alike.trans h'.alike, h'.failures.trans h.failures, h'.lastResult.trans h.lastResult,
    h'.lastFailure.trans h.lastFailure, ?_, new ++ new', ?_, refused.append refused'⟩
  · rw [h'.calls, h.calls, List.append_assoc]
  · rw [events', events, List.append_assoc]

theorem isInside_heed (busy : s.watch.busy = true) (signal : Signal) : IsInside [] s (s.heed W.recorded signal) := by
  have same : s.world.2 = s.world.2 ++ [] := (List.append_nil _).symm
  cases signal with
  | change => exact ⟨isAlike_heed _ s _, rfl, rfl, rfl, same, [.signalled .change], rfl, by simp [AreRefused]⟩
  | stop => exact ⟨isAlike_heed _ s _, rfl, rfl, rfl, same, [.signalled .stop], rfl, by simp [AreRefused]⟩
  | cycle =>
    refine ⟨isAlike_heed _ s _, rfl, rfl, rfl, same, [.signalled .cycle, .answered none true], ?_, by simp [AreRefused]⟩
    rw [(heed_cycle_of_busy busy).2]
    exact List.append_assoc ..

theorem isInside_foldl_heed (busy : s.watch.busy = true) (signals : List Signal) :
    IsInside [] s (signals.foldl (heed W.recorded) s) := by
  induction signals generalizing s with
  | nil => exact .refl s
  | cons signal rest ih =>
    have one := isInside_heed (W := W) busy signal
    exact one.trans (ih (one.alike.busy.trans busy))

theorem isInside_tellOne (busy : s.watch.busy = true)
    (l : (Option ρ → Option Failure → σ → List Signal × σ) × Nat) :
    IsInside [.listener l.2 result failure] s (tellOne W.recorded result failure s (recordedListener l, l.2)) := by
  have told : IsInside [.listener l.2 result failure] s
      { s.log (.told l.2 s.watch.cycles result failure) with
        world := (recordedListener l result failure s.world).2 } :=
    ⟨⟨rfl, rfl, rfl⟩, rfl, rfl, rfl, rfl, [_], rfl, by simp [AreRefused]⟩
  have all := told.trans (isInside_foldl_heed (W := W) (told.alike.busy.trans busy)
    (recordedListener l result failure s.world).1)
  rwa [List.append_nil] at all

/-- each listener is called once, one after the other -/
theorem isInside_tell (busy : s.watch.busy = true) (result : Option ρ) (failure : Option Failure) :
    IsInside ((List.range W.listeners.length).map fun place => .listener place result failure) s
      (s.tell W.recorded result failure) := by
  have each (listeners : List ((Option ρ → Option Failure → σ → List Signal × σ) × Nat))
      (s : Scene (σ × List (Call ρ)) ρ) (busy : s.watch.busy = true) :
      IsInside (listeners.map fun l => .listener l.2 result failure) s
        (listeners.foldl (fun s l => tellOne W.recorded result failure s (recordedListener l, l.2)) s) := by
    induction listeners generalizing s with
    | nil => exact .refl s
    | cons l rest ih =>
      have one : IsInside [.listener l.2 result failure] s
          (tellOne W.recorded result failure s (recordedListener l, l.2)) := isInside_tellOne busy l
      exact one.trans (ih _ (one.alike.busy.trans busy))
  have places : (W.listeners.zipIdx.map fun l => Call.listener l.2 result failure) =
      (List.range W.listeners.length).map fun place => .listener place result failure := by
    rw [List.range_eq_range', ← List.zipIdx_map_snd, List.map_map]
    rfl
  rw [tell_recorded, ← places]
  exact each _ s busy

/-- so is the removal of old data, if there is a store and it is due -/
theorem isInside_cleanupIfDue :
    IsInside (if W.cleanup.isSome = true ∧ cleanupDue s.watch = true then [.cleanup] else []) s
      (s.cleanupIfDue W.recorded).2 := by
  unfold cleanupIfDue World.recorded
  cases W.cleanup with
  | none => exact .refl s
  | some cleanup =>
    cases due : cleanupDue s.watch with
    | false => exact .refl s
    | true =>
      have begun : (s.log .cleaned).world = s.world := rfl
      simp only [Option.map_some, Bool.not_true, Bool.false_eq_true, if_false, begun, Option.isSome_some,
        and_self, if_true]
      obtain ⟨removed, world⟩ := cleanup s.world.1
      cases removed <;> exact ⟨⟨rfl, rfl, rfl⟩, rfl, rfl, rfl, rfl, [.cleaned], rfl, by simp [AreRefused]⟩

/-- what goes wrong in the store itself is passed over -/
theorem cleanupIfDue_of_isTidy {s : Scene σ ρ} (tidy : W.IsTidy) : (s.cleanupIfDue W).1 = .ok () := by
  cases removed : (s.cleanupIfDue W).1 with
  | ok done => rfl
  | error f =>
    obtain ⟨-, ⟨cleanup, kept, failed⟩, foreign⟩ := cleanupIfDue_eq_error_iff.mp removed
    exact absurd (tidy cleanup kept _ f failed) foreign

/-! ### One cycle in the books -/

/-- the books of a watch after cycles of some outcomes -/
structure HasBooks (k : WatchSettings) (outcomes : List (Except Failure ρ)) (w : Watch ρ) : Prop where
  settings : w.settings = k
  cycles : w.cycles = outcomes.length
  failures : w.failures = outcomes.countP fun outcome => !outcome.isOk
  lastResult : w.lastResult = (outcomes.filterMap Except.toOption).getLast?
  lastFailure : w.lastFailure = outcomes.getLast?.bind failureOf?

/-- what became of a cycle, written into the books -/
def booked (outcome : Except Failure ρ) (w : Watch ρ) : Watch ρ :=
  match outcome with
  | .error f => { w with failures := w.failures + 1, lastFailure := some f }
  | .ok r => { w with lastResult := some r, lastFailure := none }

theorem conclude_eq (outcome : Except Failure ρ) (s : Scene (σ × List (Call ρ)) ρ) : s.conclude W.recorded outcome =
    { s with watch := booked outcome s.watch }.tell W.recorded outcome.toOption (failureOf? outcome) := by
  cases outcome <;> rfl

theorem busy_booked (outcome : Except Failure ρ) (w : Watch ρ) : (booked outcome w).busy = w.busy := by
  cases outcome <;> rfl

theorem IsInside.hasBooks {k : WatchSettings} (h : IsInside calls s t) (books : HasBooks k outcomes s.watch) :
    HasBooks k outcomes t.watch :=
  ⟨h.alike.settings.trans books.settings, h.alike.cycles.trans books.cycles, h.failures.trans books.failures,
    h.lastResult.trans books.lastResult, h.lastFailure.trans books.lastFailure⟩

/-- one cycle more is counted, and what became of it is the last -/
theorem HasBooks.concat {k : WatchSettings} {w : Watch ρ} (books : HasBooks k outcomes w) (outcome : Except Failure ρ) :
    HasBooks k (outcomes ++ [outcome]) (booked outcome { w with cycles := w.cycles + 1 }) := by
  cases outcome with
  | error f =>
    exact ⟨books.settings, by simp [booked, books.cycles], by simp [booked, books.failures, Except.isOk, Except.toBool],
      by simp [booked, books.lastResult, Except.toOption], by simp [booked, failureOf?]⟩
  | ok r =>
    exact ⟨books.settings, by simp [booked, books.cycles], by simp [booked, books.failures, Except.isOk, Except.toBool],
      by simp [booked, Except.toOption], by simp [booked, failureOf?]⟩

/-- whether the books of a watch that is free are those of the outcomes of its cycles, and all calls into its world
those of these cycles, one after the other -/
structure IsBooked (W : World σ ρ) (k : WatchSettings) (outcomes : List (Except Failure ρ))
    (s : Scene (σ × List (Call ρ)) ρ) : Prop where
  free : s.watch.busy = false
  books : HasBooks k outcomes s.watch
  calls : s.world.2 = (outcomes.zipIdx 1).flatMap fun entry =>
    callsOf k W.listeners.length W.cleanup.isSome entry.2 entry.1

/-- a cycle up to the removal of old data: it is counted, its outcome is written into the books, and it and each
listener have been called -/
theorem HasBooks.runAndTell {k : WatchSettings} (books : HasBooks k outcomes s.watch)
    (ended : (s.runAndTell W.recorded).1 = outcome) : ∃ t, (s.runAndTell W.recorded).2 = t ∧ t.watch.busy = true ∧
      HasBooks k (outcomes ++ [outcome]) t.watch ∧
      t.world.2 = s.world.2 ++ .cycle (outcomes.length + 1) outcome ::
        (List.range W.listeners.length).map (fun place => .listener place outcome.toOption (failureOf? outcome)) ∧
      ∃ new, t.events = s.events ++ new ∧ AreRefused new := by
  have number : s.watch.cycles + 1 = outcomes.length + 1 := congrArg (· + 1) books.cycles
  let run := W.recorded.cycle (s.watch.cycles + 1) s.world
  let begun : Scene (σ × List (Call ρ)) ρ := { s.beginCycle W.recorded with world := run.2.2 }
  have ran : run.2.1 = outcome := ended
  have heeded := isInside_foldl_heed (W := W) (s := begun) rfl run.1
  let heard := run.1.foldl (heed W.recorded) begun
  have busy : heard.watch.busy = true := heeded.alike.busy
  -- the books in which the cycle is counted, but not yet what became of it
  let before : Watch ρ := { heard.watch with cycles := s.watch.cycles }
  have old : HasBooks k outcomes before :=
    ⟨heeded.alike.settings.trans books.settings, books.cycles, heeded.failures.trans books.failures,
      heeded.lastResult.trans books.lastResult, heeded.lastFailure.trans books.lastFailure⟩
  have counted : { before with cycles := before.cycles + 1 } = heard.watch := by
    have cycles : heard.watch.cycles = s.watch.cycles + 1 := heeded.alike.cycles
    change { heard.watch with cycles := s.watch.cycles + 1 } = heard.watch
    rw [← cycles]
  have written : HasBooks k (outcomes ++ [outcome]) (booked outcome heard.watch) := counted ▸ old.concat outcome
  have told := isInside_tell (W := W) (s := { heard with watch := booked outcome heard.watch })
    ((busy_booked outcome _).trans busy) outcome.toOption (failureOf? outcome)
  refine ⟨_, rfl, ?_⟩
  have same : (s.runAndTell W.recorded).2 = { heard with watch := booked outcome heard.watch }.tell W.recorded
      outcome.toOption (failureOf? outcome) := by
    rw [← conclude_eq, ← ran]
    rfl
  rw [same]
  refine ⟨told.alike.busy.trans ((busy_booked outcome _).trans busy), told.hasBooks written, ?_, ?_⟩
  · have calls : heard.world.2 = (s.world.2 ++ [.cycle (s.watch.cycles + 1) run.2.1]) ++ [] := heeded.calls
    rw [told.calls, calls, ran, number, List.append_nil, List.append_assoc]
    rfl
  · obtain ⟨new, events, refused⟩ := heeded.events
    obtain ⟨more, events', refused'⟩ := told.events
    refine ⟨.began (s.watch.cycles + 1) (W.recorded.now s.world) :: (new ++ more), ?_, ?_⟩
    · rw [events', events, List.append_assoc]
      exact List.append_assoc ..
    · have start : AreRefused ([.began (s.watch.cycles + 1) (W.recorded.now s.world)] : List (Event ρ)) := by
        simp [AreRefused]
      exact start.append (refused.append refused')

/-- a cycle more, with its calls -/
theorem IsBooked.calls_concat {k : WatchSettings} (before : IsBooked W k outcomes s) (outcome : Except Failure ρ) :
    ((outcomes ++ [outcome]).zipIdx 1).flatMap (fun entry =>
      callsOf k W.listeners.length W.cleanup.isSome entry.2 entry.1) =
        s.world.2 ++ callsOf k W.listeners.length W.cleanup.isSome (outcomes.length + 1) outcome := by
  rw [List.zipIdx_append, List.flatMap_append, ← before.calls, Nat.add_comm 1]
  simp

/-- **One cycle in the books.** It adds one outcome, calls into the world as that outcome asks, and gives its result
to whoever asked for it; whoever asked meanwhile got nothing. -/
theorem IsBooked.runOnce {k : WatchSettings} (tidy : W.IsTidy) (before : IsBooked W k outcomes s)
    (ended : (s.runAndTell W.recorded).1 = outcome) : (s.runOnce W.recorded).1 = .ok outcome.toOption ∧
      IsBooked W k (outcomes ++ [outcome]) (s.runOnce W.recorded).2 ∧
      ∃ new, (s.runOnce W.recorded).2.events = s.events ++ new ∧ AreRefused new := by
  obtain ⟨t, told, -, books, calls, new, events, refused⟩ := before.books.runAndTell ended
  cases outcome with
  | error f =>
    rw [runOnce_of_error before.free ended, told]
    refine ⟨rfl, ⟨rfl, ⟨books.1, books.2, books.3, books.4, books.5⟩, ?_⟩, new, events, refused⟩
    change t.world.2 = _
    rw [before.calls_concat, calls]
    simp [callsOf, Except.isOk, Except.toBool]
  | ok r =>
    rw [runOnce_of_ok before.free ended, told]
    have cleaned := isInside_cleanupIfDue (W := W) (s := t)
    have after := cleaned.hasBooks books
    obtain ⟨more, events', refused'⟩ := cleaned.events
    refine ⟨?_, ⟨rfl, ⟨after.1, after.2, after.3, after.4, after.5⟩, ?_⟩, new ++ more, ?_, refused.append refused'⟩
    · rw [cleanupIfDue_of_isTidy tidy.recorded]
      rfl
    · have due : cleanupDue t.watch = true ↔ k.autoCleanup = true ∧ k.cleanupEvery ∣ outcomes.length + 1 := by
        unfold cleanupDue
        rw [books.settings, books.cycles, Bool.and_eq_true, decide_eq_true_eq, Nat.dvd_iff_mod_eq_zero,
          List.length_append]
        rfl
      have all : (t.cleanupIfDue W.recorded).2.release.world.2 = _ := cleaned.calls
      rw [before.calls_concat, all, calls, List.append_assoc]
      simp [callsOf, due, Except.isOk, Except.toBool]
    · exact events'.trans (by rw [events, List.append_assoc])

/-! ### Any requests, one after the other -/

/-- what is no request for a cycle leaves the books as they are -/
theorem IsBooked.noted {k : WatchSettings} (h : IsBooked W k outcomes s) {signal : Signal} (other : signal ≠ .cycle) :
    IsBooked W k outcomes (s.heed W.recorded signal) := by
  have books := h.books
  cases signal with
  | cycle => exact absurd rfl other
  | _ => exact ⟨h.free, ⟨books.1, books.2, books.3, books.4, books.5⟩, h.calls⟩

theorem IsBooked.logged {k : WatchSettings} (h : IsBooked W k outcomes s) (e : Event ρ) :
    IsBooked W k outcomes (s.log e) :=
  have books := h.books
  ⟨h.free, ⟨books.1, books.2, books.3, books.4, books.5⟩, h.calls⟩

/-- **Requests in the books.** Each cycle that is asked for while none runs adds its outcome, and gives its result to
whoever asked. -/
theorem IsBooked.heedAll {k : WatchSettings} (tidy : W.IsTidy) (before : IsBooked W k outcomes s)
    (answers : HasAnswered outcomes s.events) (signals : List Signal) :
    (heedAll W.recorded signals s).1 = .ok () ∧ ∃ more, more.length = signals.count .cycle ∧
      IsBooked W k (outcomes ++ more) (Scene.heedAll W.recorded signals s).2 ∧
      HasAnswered (outcomes ++ more) (Scene.heedAll W.recorded signals s).2.events := by
  induction signals generalizing s outcomes with
  | nil => exact ⟨rfl, [], rfl, by rwa [List.append_nil], by rwa [List.append_nil]⟩
  | cons signal rest ih =>
    cases signal with
    | change =>
      have noted : IsBooked W k outcomes (s.heed W.recorded .change) := before.noted nofun
      obtain ⟨went, more, length, after⟩ := ih noted (answers.append (by simp [AreRefused]))
      exact ⟨went, more, length.trans (List.count_cons_of_ne (by decide)).symm, after⟩
    | stop =>
      have noted : IsBooked W k outcomes (s.heed W.recorded .stop) := before.noted nofun
      obtain ⟨went, more, length, after⟩ := ih noted (answers.append (by simp [AreRefused]))
      exact ⟨went, more, length.trans (List.count_cons_of_ne (by decide)).symm, after⟩
    | cycle =>
      obtain ⟨answer, booked, new, events, refused⟩ := (before.logged (.signalled .cycle)).runOnce tidy rfl
      unfold Scene.heedAll
      generalize ((s.log (.signalled .cycle)).runAndTell W.recorded).1 = outcome at answer booked
      generalize (s.log (.signalled .cycle)).runOnce W.recorded = done at answer booked events
      obtain ⟨result, t⟩ := done
      obtain rfl : result = .ok outcome.toOption := answer
      have told : HasAnswered (outcomes ++ [outcome]) (t.log (.answered outcome.toOption t.watch.busy)).events := by
        rw [booked.free]
        refine HasAnswered.concat ?_ outcome
        rw [events, log, List.append_assoc]
        have call : AreRefused ([.signalled .cycle] : List (Event ρ)) := by simp [AreRefused]
        exact answers.append (call.append refused)
      obtain ⟨went, more, length, rest⟩ := ih (booked.logged _) told
      refine ⟨went, outcome :: more, ?_, ?_⟩
      · rw [List.length_cons, length, List.count_cons_self]
      · rwa [List.append_assoc] at rest

/-- **The books are kept.** Take a watch whose removal of old data, if there is a store, fails at most in the store
itself.  However its listeners end, and whatever is asked of it, one request after the other, all goes well, and the
books are those of the outcomes of its cycles, one for each that was asked for while none was running.  It calls into
its world for these cycles alone: for each cycle, for each listener once and in their order, and for the removal of
old data when that is due.  Whoever asked is given the result; whoever asked while a cycle was running got nothing and
started none. -/
theorem books_kept (W : World σ ρ) (listeners : List (Listener σ ρ)) (k : WatchSettings) (w : σ)
    (signals : List Signal) (tidy : W.IsTidy) :
    let V := W.heardBy listeners
    let done := heedAll V.recorded signals ⟨(w, []), { settings := k }, []⟩
    ((done.1, done.2.bare) = heedAll V signals ⟨w, { settings := k }, []⟩ ∧ done.1 = .ok ()) ∧
    (∃ outcomes : List (Except Failure ρ), outcomes.length = signals.count .cycle ∧
      done.2.watch.busy = false ∧ HasBooks k outcomes done.2.watch ∧
      done.2.world.2 = ((outcomes.zipIdx 1).flatMap fun entry =>
        callsOf k listeners.length W.cleanup.isSome entry.2 entry.1) ∧
      answered done.2.events = outcomes.map Except.toOption ∧
      ∀ result, .answered result true ∈ done.2.events → result = none) ∧
    ∀ t : Scene σ ρ, t.watch.busy = true →
      t.runOnce V = (.ok none, t) ∧ t.heed V .cycle = (t.log (.signalled .cycle)).log (.answered none true) := by
  intro V done
  have fresh : IsBooked V k [] ⟨(w, []), { settings := k }, []⟩ := ⟨rfl, ⟨rfl, rfl, rfl, rfl, rfl⟩, rfl⟩
  have tidy : V.IsTidy := tidy
  obtain ⟨went, outcomes, length, booked, answers⟩ := fresh.heedAll tidy ⟨rfl, nofun⟩ signals
  obtain ⟨same, bare⟩ := bare_heedAll (W := V) signals ⟨(w, []), { settings := k }, []⟩
  refine ⟨⟨Prod.ext same bare, went⟩, ⟨outcomes, length, booked.free, booked.books, ?_, answers.answers,
    answers.refused⟩, fun t busy => ⟨runOnce_of_busy busy, (heed_cycle_of_busy busy).2⟩⟩
  have places : V.listeners.length = listeners.length := List.length_map _
  have calls := booked.calls
  rwa [places] at calls

/-- a world in which only the second cycle goes well, in which each cycle asks for another one while it runs, and in
which the store fails to remove old data -/
def unsteady : World Nat Nat where
  now _ := 0
  cycle number removals :=
    ([.cycle, .change], if number = 2 then .ok number else .error (.foreign .runtime "boom"), removals)
  wait _ _ removals := ([], removals)
  listeners := []
  cleanup := some fun removals => (.error (.store .cleanup), removals + 1)

/-- a listener that asks for a cycle and fails, and one that does nothing -/
def pushyAndQuiet : List (Listener Nat Nat) :=
  [fun _ _ removals => ([.cycle], .error .noStore, removals), fun _ _ removals => ([], .ok (), removals)]

/-- three cycles, the removal of old data behind the second, and the failure of the third -/
theorem books_kept_unsteady :
    let k : WatchSettings := { cleanupEvery := 2 }
    let done := heedAll (unsteady.heardBy pushyAndQuiet).recorded [.cycle, .stop, .cycle, .cycle]
      ⟨(0, []), { settings := k }, []⟩
    unsteady.IsTidy ∧ done.1 = .ok () ∧ done.2.watch.cycles = 3 ∧ done.2.watch.failures = 2 ∧
      done.2.watch.lastResult = some 2 ∧ done.2.watch.lastFailure.isSome = true ∧
      done.2.world.1 = 1 := by
  intro k done
  have tidy : unsteady.IsTidy := by
    rintro cleanup ⟨⟩ w f ⟨⟩
    rfl
  obtain ⟨⟨-, went⟩, ⟨outcomes, length, -, books, -⟩, -⟩ :=
    books_kept unsteady pushyAndQuiet k 0 [.cycle, .stop, .cycle, .cycle] tidy
  exact ⟨tidy, went, books.cycles.trans length, by decide, by decide, by decide, by decide⟩

end Scene

end LintLedger.Watch
