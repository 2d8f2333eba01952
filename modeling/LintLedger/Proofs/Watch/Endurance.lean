import LintLedger.Engine.Cycle
import LintLedger.Proofs.Settings.Bounds
import LintLedger.Proofs.Watch.Run
import Mathlib

/-!
# What the watch outlives

The watch is made to outlive its cycles: one that fails is counted, a listener that fails is passed over, and so
is a store that cannot remove old data.  The one thing that it does not outlive is a removal for which the
calendar does not go back far enough, since no bound is set to the days for which old data are kept
(`outlives_cycles`, `killed_by_retention`).
-/

namespace LintLedger

/-- the world of a project removes old data from its store, by the moment at which it stands -/
theorem Site.isKept_world {now : Instant} (calendar : now.micros < Instant.limit) (k : StoreSettings) :
    (Site.world now (some k)).IsKept k fun _ => now where
  calendar _ := calendar
  cleanup c hc site := by
    refine ⟨site.store, ?_⟩
    cases hc
    unfold Site.cleanup
    cases Store.cleanup k now none site.store <;> rfl

namespace Watch.Scene

variable {σ ρ : Type}

/-- **The watch outlives its cycles, but for one.** Settings that are taken set a number of cycles after which old
data are removed.  Over a store that is kept by them, whatever its cycles and its listeners do, a watch gives its
lock back after each cycle; and a cycle ends well unless it is followed by a removal of old data and the calendar
does not go back as far as they are kept.  A run makes laps of a cycle and a pause until it is told to end or has
run all cycles that were asked for, unless such a removal, or a wait that cannot be begun, makes it fail before;
and then too it gives the lock back. -/
theorem outlives_cycles {es : List (Value × Value)} {settings : Settings} (read : Settings.read es = .ok settings)
    {W : World σ ρ} {clock : σ → Instant} (kept : W.IsKept (.ofDatabase settings.database) clock)
    (listeners : List (Listener σ ρ)) {s : Scene σ ρ} (own : s.watch.settings = settings.watch) :
    0 < settings.watch.cleanupEvery ∧
    (s.runOnce (W.heardBy listeners)).2.watch.busy = s.watch.busy ∧
    ((∃ f, (s.runOnce (W.heardBy listeners)).1 = .error f) ↔
      s.watch.busy = false ∧ (∃ r, (s.runAndTell (W.heardBy listeners)).1 = .ok r) ∧ W.cleanup.isSome = true ∧
        settings.watch.autoCleanup = true ∧ settings.watch.cleanupEvery ∣ s.watch.cycles + 1 ∧
        (clock (s.runAndTell (W.heardBy listeners)).2.world).LacksDays settings.database.maxHistoryDays) ∧
    ∀ limit turns patience,
      (s.run (W.heardBy listeners) limit turns patience).scene.watch.busy = s.watch.busy ∧
      (∃ n t, Laps (W.heardBy listeners) limit patience 0 { s with watch := s.watch.start } n t ∧ n ≤ turns ∧
        (s.watch.busy = false → s.watch.cycles + n ≤ t.watch.cycles) ∧
        RunEnds (W.heardBy listeners) limit turns patience n t
          (s.run (W.heardBy listeners) limit turns patience)) ∧
      ∀ f, (s.run (W.heardBy listeners) limit turns patience).failure = some f →
        (∃ w, (clock w).LacksDays settings.database.maxHistoryDays) ∨ ∃ seconds, W.refuses seconds = some f := by
  have counted := Settings.isCounted_of_read read
  have heard : (W.heardBy listeners).IsKept (.ofDatabase settings.database) clock :=
    ⟨kept.calendar, kept.cleanup⟩
  have days : (StoreSettings.ofDatabase settings.database).historyDays = settings.database.maxHistoryDays := rfl
  have fails (s : Scene σ ρ) := exists_runOnce_fails_iff (s := s) heard days
  refine ⟨counted.cleanup, busy_runOnce _ s, own ▸ fails s, fun limit turns patience => ⟨?_, ?_, ?_⟩⟩
  · exact (works_run _ limit turns patience s).1.busy
  · obtain ⟨n, t, laps, within, ends⟩ := exists_runEnds (W.heardBy listeners) limit turns patience s
    exact ⟨n, t, laps, within, fun free => laps.cycles_le free, ends⟩
  · intro f failed
    rcases (works_run _ limit turns patience s).2 f failed with ⟨t, -, cycle⟩ | refused
    · obtain ⟨-, -, -, -, -, lacks⟩ := (fails t).mp ⟨f, cycle⟩
      exact .inl ⟨_, lacks⟩
    · exact .inr refused

/-! ### Over a project without analyzers -/

/-- noon of 1 January 2026 -/
def noon : Instant := .ofCivil ⟨⟨2026, 1, 1⟩, 12, 0, 0, 0, none⟩

/-- a project at noon, with a store that is kept by its settings -/
def noonWorld (settings : Settings) : World Site Cycle :=
  Site.world noon (some (.ofDatabase settings.database))

/-- the watch over a project without analyzers, before its first cycle -/
def idle (settings : Settings) : Scene Site Cycle :=
  ⟨⟨.of settings ⟨⟨.root, ["p"]⟩, .empty⟩ (some (.ofDatabase settings.database)) [], .empty, 0⟩,
    { settings := settings.watch }, []⟩

/-- a listener that asks for a cycle, tells of a change, and fails -/
def rude : Listener Site Cycle := fun _ _ site => ([.cycle, .change], .error .noStore, site)

theorem noonWorld_isKept (settings : Settings) :
    (noonWorld settings).IsKept (.ofDatabase settings.database) fun _ => noon :=
  Site.isKept_world (by decide) _

/-- with the settings that hold where nothing is set, no cycle fails, though the listener does -/
theorem outlives_cycles_by_default : Settings.read [] = .ok {} ∧
    (idle {}).watch.settings = ({} : Settings).watch ∧
    (¬∃ f, ((idle {}).runOnce ((noonWorld {}).heardBy [rude])).1 = .error f) ∧
    ((idle {}).run ((noonWorld {}).heardBy [rude]) (some 2) 3 5).scene.watch.busy = false := by
  obtain ⟨-, -, fails, runs⟩ := outlives_cycles (rfl : Settings.read [] = .ok {}) (noonWorld_isKept {}) [rude]
    (rfl : (idle {}).watch.settings = ({} : Settings).watch)
  refine ⟨rfl, rfl, fun failed => ?_, (runs (some 2) 3 5).1⟩
  have enough : ¬noon.LacksDays 30 := by decide
  exact enough (fails.mp failed).2.2.2.2.2

/-- settings by which old data are kept for a million days and removed after each cycle -/
def hoarding : Settings where
  database := { maxHistoryDays := 1000000 }
  watch := { cleanupEvery := 1 }

/-- these settings are taken, and the first cycle of the watch goes well; but the removal of old data behind it
ends the watch, which was to run two cycles -/
theorem killed_by_retention :
    Settings.read [(.text "database", .map [(.text "max_history_days", .int 1000000)]),
      (.text "watch", .map [(.text "cleanup_every", .int 1)])] = .ok hoarding ∧
    ((idle hoarding).runAndTell (noonWorld hoarding)).1.isOk = true ∧
    (∃ f, ((idle hoarding).runOnce (noonWorld hoarding)).1 = .error f) ∧
    ((idle hoarding).run (noonWorld hoarding) (some 2) 2 5).failure.isSome = true ∧
    ((idle hoarding).run (noonWorld hoarding) (some 2) 2 5).scene.watch.cycles = 1 := by
  have goes : ((idle hoarding).runAndTell (noonWorld hoarding)).1.isOk = true := by decide +kernel
  have lacks : noon.LacksDays 1000000 := by decide
  refine ⟨rfl, goes, ?_, by decide +kernel, by decide +kernel⟩
  exact (exists_runOnce_fails_iff (noonWorld_isKept hoarding) rfl).mpr
    ⟨rfl, Outcome.exists_eq_ok.mpr goes, rfl, rfl, by decide, lacks⟩

end Watch.Scene

end LintLedger
