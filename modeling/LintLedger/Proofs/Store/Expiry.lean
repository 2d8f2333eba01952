import LintLedger.Proofs.Store.Retention
import LintLedger.Proofs.Store.Tables
import Mathlib

/-!
# What is removed as it grows old

Removing old data takes away what lies before a limit and nothing else (`cleanup_eq`).  A later limit takes
away all that an earlier one does, so whatever has been removed up to the one need not be looked for when
all is removed up to the other (`purged_purged`).  In a store that comes about from an empty one a resolved
violation knows when it was resolved, so that its age is never told by when it was last seen
(`isStale_eq`).
-/

namespace LintLedger

open Outcome

instance (a b : Instant) : Decidable (a < b) := inferInstanceAs (Decidable (a.micros < b.micros))

namespace ViolationRow

variable {limit now : Instant} {r : ViolationRow}

/-- whether a violation was resolved before a limit -/
def IsExpired (limit : Instant) (r : ViolationRow) : Prop :=
  r.status = .resolved ∧ ∃ t ∈ r.resolvedAt, t < limit

instance : Decidable (r.IsExpired limit) :=
  inferInstanceAs (Decidable (_ ∧ ∃ t ∈ r.resolvedAt, t < limit))

/-- what has been resolved knows when that was -/
theorem isStale_eq (h : r.IsSound now) : r.isStale limit = decide (r.IsExpired limit) := by
  rw [Bool.eq_iff_iff, isStale, Bool.and_eq_true, decide_eq_true_iff, decide_eq_true_iff]
  refine and_congr_right fun resolved => ?_
  obtain ⟨t, known⟩ := h.status.mp resolved
  rw [known]
  simp only [Option.getD_some, Option.mem_some_iff, exists_eq_left']
  exact decide_eq_true_iff

theorem isStale_mono {a b : Instant} (le : a ≤ b) (stale : r.isStale a) : r.isStale b := by
  rw [isStale, Bool.and_eq_true] at stale ⊢
  refine ⟨stale.1, ?_⟩
  have before := of_decide_eq_true stale.2
  exact decide_eq_true (lt_of_lt_of_le before le)

end ViolationRow

namespace Store

variable {k : StoreSettings} {now since limit : Instant} {s : Store} {asked : Option Value}
  {rows : List ViolationRow} {history : List HistoryRow} {metrics : List MetricRow}

/-- a store without what lies before a limit -/
def purged (limit : Instant) (s : Store) : Store :=
  { s with
    history := s.history.map (·.filter fun r => !r.recordedAt.isBefore limit)
    violations := s.violations.map (·.filter fun r => !r.isStale limit)
    metrics := s.metrics.map (·.filter fun r => !r.recordedAt.isBefore limit) }

/-- what is removed from a store all of whose tables are there, and what is left of it -/
theorem cleanup_eq (bounded : now.before (asked.getD (.int k.historyDays)) = .ok limit)
    (hrows : s.violations = some rows) (hhistory : s.history = some history)
    (hmetrics : s.metrics = some metrics) :
    cleanup k now asked s = .ok
      (⟨history.countP (·.recordedAt.isBefore limit), rows.countP (·.isStale limit),
        metrics.countP (·.recordedAt.isBefore limit)⟩, s.purged limit) := by
  have needed {α : Type} {table : Table α} {rows : List α} (known : table = some rows) :
      need .cleanup table = .ok rows := need_eq_ok.mpr known
  unfold cleanup purged
  rw [bounded, needed hrows, needed hhistory, needed hmetrics, hrows, hhistory, hmetrics]
  rfl

theorem exists_cleanup_eq (whole : s.IsWhole)
    (bounded : now.before (asked.getD (.int k.historyDays)) = .ok limit) :
    ∃ result, cleanup k now asked s = .ok (result, s.purged limit) := by
  obtain ⟨rows, hrows⟩ := Option.isSome_iff_exists.mp whole.violations
  obtain ⟨history, hhistory⟩ := Option.isSome_iff_exists.mp whole.history
  obtain ⟨metrics, hmetrics⟩ := Option.isSome_iff_exists.mp whole.metrics
  exact ⟨_, cleanup_eq bounded hrows hhistory hmetrics⟩

theorem IsWhole.purged (h : s.IsWhole) (limit : Instant) : (s.purged limit).IsWhole where
  violations := by simpa [Store.purged] using h.violations
  history := by simpa [Store.purged] using h.history
  checks := h.checks
  schedules := h.schedules
  metrics := by simpa [Store.purged] using h.metrics

/-! ### One limit after another -/

/-- of two limits of which the one takes away all that the other does, only the one matters -/
theorem filter_not_filter_not {α : Type} {p q : α → Bool} (more : ∀ a, p a → q a) (xs : List α) :
    (xs.filter (!p ·)).filter (!q ·) = xs.filter (!q ·) ∧
      (xs.filter (!q ·)).filter (!p ·) = xs.filter (!q ·) := by
  have both : ∀ a, (!q a && !p a) = !q a := by
    intro a
    by_cases less : p a = true
    · simp [more a less]
    · simp [less]
  rw [List.filter_filter, List.filter_filter]
  exact ⟨List.filter_congr fun a _ => both a, List.filter_congr fun a _ => (Bool.and_comm _ _).trans (both a)⟩

/-- of two limits only the later one matters, in whatever order -/
theorem purged_purged {a b : Instant} (le : a ≤ b) (s : Store) :
    (s.purged a).purged b = s.purged b ∧ (s.purged b).purged a = s.purged b := by
  have earlier : ∀ t : Instant, t.isBefore a → t.isBefore b := fun t before =>
    decide_eq_true (lt_of_lt_of_le (of_decide_eq_true before) le)
  have tables {α : Type} {p q : α → Bool} (more : ∀ r, p r → q r) (table : Table α) :
      (table.map (·.filter (!p ·))).map (·.filter (!q ·)) = table.map (·.filter (!q ·)) ∧
        (table.map (·.filter (!q ·))).map (·.filter (!p ·)) = table.map (·.filter (!q ·)) := by
    cases table with
    | none => exact ⟨rfl, rfl⟩
    | some rows =>
      obtain ⟨first, last⟩ := filter_not_filter_not more rows
      exact ⟨congrArg some first, congrArg some last⟩
  have violations := tables (p := (·.isStale a)) (q := (·.isStale b)) (fun r => ViolationRow.isStale_mono le)
    s.violations
  have history := tables (p := (·.recordedAt.isBefore a)) (q := (·.recordedAt.isBefore b))
    (fun r => earlier r.recordedAt) s.history
  have metrics := tables (p := (·.recordedAt.isBefore a)) (q := (·.recordedAt.isBefore b))
    (fun r => earlier r.recordedAt) s.metrics
  unfold purged
  dsimp only
  rw [violations.1, violations.2, history.1, history.2, metrics.1, metrics.2]
  exact ⟨rfl, rfl⟩

/-- two removals at one moment, the one of more days and the other of fewer, come to the one of fewer days, in
whatever order -/
theorem cleanup_cleanup {few many : Int} {early late : Instant} (whole : s.IsWhole) (le : few ≤ many)
    (calendar : now.micros < Instant.limit) (hlate : late.IsDaysBefore few now)
    (hearly : early.IsDaysBefore many now) :
    ∃ t, (∃ r, cleanup k now (some (.int few)) s = .ok (r, t)) ∧
      (∃ r u r', cleanup k now (some (.int many)) s = .ok (r, u) ∧
        cleanup k now (some (.int few)) u = .ok (r', t)) ∧
      ∃ r u r', cleanup k now (some (.int few)) s = .ok (r, u) ∧
        cleanup k now (some (.int many)) u = .ok (r', t) := by
  have removes {days : Int} {limit : Instant} (h : limit.IsDaysBefore days now) {u : Store} (hu : u.IsWhole) :
      ∃ r, cleanup k now (some (.int days)) u = .ok (r, u.purged limit) :=
    exists_cleanup_eq hu ((Instant.before_eq_ok_iff calendar).mpr h)
  have order : early ≤ late := by
    have days : few * (Instant.dayLength : Int) ≤ many * Instant.dayLength :=
      Int.mul_le_mul_of_nonneg_right le (Int.natCast_nonneg _)
    have := hearly.distance
    have := hlate.distance
    change early.micros ≤ late.micros
    omega
  obtain ⟨longer, shorter⟩ := purged_purged order s
  obtain ⟨r, once⟩ := removes hlate whole
  obtain ⟨first, hfirst⟩ := removes hearly whole
  obtain ⟨last, hlast⟩ := removes hlate (whole.purged early)
  obtain ⟨again, hagain⟩ := removes hearly (whole.purged late)
  rw [longer] at hlast
  rw [shorter] at hagain
  exact ⟨s.purged late, ⟨r, once⟩, ⟨first, _, last, hfirst, hlast⟩, r, _, again, once, hagain⟩

/-- **What grows old is removed.** Take any store that comes about from an empty one, any moment of the
calendar and any number of days, asked for or the store's own, that leads back, or forward if it is negative,
to a limit in the calendar.  Then removing old data succeeds: it takes away the history and the
measurements that were written before the limit and the violations that were resolved before it, tells how
many of each there were, and leaves all else as it is, active violations, checks and schedules among it.
Doing so for two numbers of days at one moment, in either order, leaves the store that the smaller one alone
leaves. -/
theorem old_data_removed (h : Reached s since) (calendar : now.micros < Instant.limit) (k : StoreSettings) :
    ∃ rows history metrics, s.violations = some rows ∧ s.history = some history ∧ s.metrics = some metrics ∧
      (∀ (days : Int) (limit : Instant) (asked : Option Value),
        limit.IsDaysBefore days now → asked.getD (.int k.historyDays) = .int days →
        cleanup k now asked s = .ok
          (⟨history.countP (·.recordedAt < limit), rows.countP (·.IsExpired limit),
            metrics.countP (·.recordedAt < limit)⟩,
          { s with
            history := some (history.filter fun r => ¬r.recordedAt < limit)
            violations := some (rows.filter fun r => ¬r.IsExpired limit)
            metrics := some (metrics.filter fun r => ¬r.recordedAt < limit) }) ∧
        ∀ r ∈ rows, r.status = .active → r ∈ rows.filter fun r => ¬r.IsExpired limit) ∧
      ∀ (d₁ d₂ : Int) (l₁ l₂ : Instant), l₁.IsDaysBefore d₁ now → l₂.IsDaysBefore d₂ now →
        ∃ t, (∃ r, cleanup k now (some (.int (min d₁ d₂))) s = .ok (r, t)) ∧
          (∃ r u r', cleanup k now (some (.int d₁)) s = .ok (r, u) ∧
            cleanup k now (some (.int d₂)) u = .ok (r', t)) ∧
          ∃ r u r', cleanup k now (some (.int d₂)) s = .ok (r, u) ∧
            cleanup k now (some (.int d₁)) u = .ok (r', t) := by
  have whole := h.isWhole
  obtain ⟨rows, hrows, sound⟩ := h.isSound
  obtain ⟨history, hhistory⟩ := Option.isSome_iff_exists.mp whole.history
  obtain ⟨metrics, hmetrics⟩ := Option.isSome_iff_exists.mp whole.metrics
  refine ⟨rows, history, metrics, hrows, hhistory, hmetrics, ?_, ?_⟩
  · intro days limit asked far own
    have bounded : now.before (asked.getD (.int k.historyDays)) = .ok limit := by
      rw [own, Instant.before_eq_ok_iff calendar]
      exact far
    have stale : ∀ r ∈ rows, r.isStale limit = decide (r.IsExpired limit) := fun r hr =>
      ViolationRow.isStale_eq (sound.each r hr)
    have counted : rows.countP (·.isStale limit) = rows.countP (·.IsExpired limit) :=
      List.countP_congr fun r hr => by rw [stale r hr]
    have kept : rows.filter (fun r => !r.isStale limit) = rows.filter fun r => ¬r.IsExpired limit :=
      List.filter_congr fun r hr => by rw [stale r hr, decide_not]
    constructor
    · rw [cleanup_eq bounded hrows hhistory hmetrics, counted]
      unfold purged
      rw [hrows, hhistory, hmetrics, Option.map_some, Option.map_some, Option.map_some, kept]
      simp only [decide_not]
      rfl
    · intro r hr active
      refine List.mem_filter.mpr ⟨hr, decide_eq_true ?_⟩
      rintro ⟨resolved, -⟩
      rw [active] at resolved
      cases resolved
  · intro d₁ d₂ l₁ l₂ h₁ h₂
    rcases le_total d₁ d₂ with le | le
    · rw [min_eq_left le]
      obtain ⟨t, once, longer, shorter⟩ := cleanup_cleanup whole le calendar h₁ h₂
      exact ⟨t, once, shorter, longer⟩
    · rw [min_eq_right le]
      exact cleanup_cleanup whole le calendar h₂ h₁

/-- a store in which one violation was resolved, another came later, and each was told of in the history when
it came -/
def agedStore : Store :=
  let told := (respond {} (.still ⟨2⟩) settledStore (.recordDeltas (.int 1) ["a"])).2
  let again := (respond {} (.still ⟨3⟩) told (.store [{ sample with line := .int 2 }])).2
  (respond {} (.still ⟨3⟩) again (.recordDeltas (.int 2) ["b"])).2

theorem agedStore_reached : Reached agedStore ⟨3⟩ := by
  have later : (Clock.still ⟨3⟩).Within ⟨2⟩ ⟨3⟩ :=
    ⟨fun _ => Nat.le_succ 2, fun _ => le_refl _, fun _ _ _ => le_refl _⟩
  exact .step (.step (.step settledStore_reached (.still ⟨2⟩) (.answered _)) later (.answered _))
    (.still ⟨3⟩) (.answered _)

/-- the moment that lies a day behind the moment 3 -/
def dayLater : Instant := ⟨86400000003⟩

/-- a day back nothing is old but what was written and resolved before; the second of two removals finds
nothing any more, and the other way round the first takes less -/
theorem old_data_removed_aged :
    Reached agedStore ⟨3⟩ ∧ dayLater.micros < Instant.limit ∧ Instant.IsDaysBefore ⟨3⟩ 1 dayLater ∧
    (∃ t, cleanup {} dayLater (some (.int 1)) agedStore = .ok (⟨1, 1, 0⟩, t)) ∧
    ∃ t, (∃ r, cleanup {} dayLater (some (.int (min 1 0))) agedStore = .ok (r, t)) ∧
      ∃ r u r', cleanup {} dayLater (some (.int 1)) agedStore = .ok (r, u) ∧
        cleanup {} dayLater (some (.int 0)) u = .ok (r', t) := by
  have calendar : dayLater.micros < Instant.limit := by decide
  have back : Instant.IsDaysBefore ⟨3⟩ 1 dayLater := ⟨by decide, by decide⟩
  have now : Instant.IsDaysBefore dayLater 0 dayLater := ⟨by decide, by decide⟩
  obtain ⟨rows, history, metrics, -, -, -, removes, both⟩ := old_data_removed agedStore_reached calendar {}
  refine ⟨agedStore_reached, calendar, back, ?_, ?_⟩
  · have counts : (cleanup {} dayLater (some (.int 1)) agedStore).toOption.map Prod.fst = some ⟨1, 1, 0⟩ := by
      decide +kernel
    obtain ⟨⟨result, t⟩, removed⟩ : ∃ out, cleanup {} dayLater (some (.int 1)) agedStore = .ok out :=
      ⟨_, (removes 1 ⟨3⟩ (some (.int 1)) back rfl).1⟩
    rw [removed] at counts
    cases counts
    exact ⟨t, removed⟩
  · obtain ⟨t, once, twice, -⟩ := both 1 0 ⟨3⟩ dayLater back now
    exact ⟨t, once, twice⟩

end Store

end LintLedger
