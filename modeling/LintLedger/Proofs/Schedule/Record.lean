import LintLedger.Schedule
import Mathlib

/-!
# Turns and records

What a cycle does to a schedule.  Taking a turn moves the cursor and the cycle on and touches no rule
(`select_eq_some`); recording a check replaces what is known of the rule that was checked, so that all
that is known afterwards is what the check found and what was known of the other rules
(`mem_known_record`).
-/

namespace LintLedger.Schedule

variable {s t : Schedule} {r : Rule} {found : List Violation} {v : Violation}

theorem mem_turns {e : RuleState} : e ∈ s.turns ↔ e ∈ s.states := by
  unfold turns
  rw [List.mem_append, Or.comm, ← List.mem_append, List.take_append_drop]

/-- the rule whose turn it is is one of the schedule; only cursor and cycle move on -/
theorem select_eq_some (h : s.select = some (r, t)) :
    (∃ e ∈ s.states, e.rule = r) ∧ ∃ cursor, t = { s with cursor := cursor, cycle := s.cycle + 1 } := by
  unfold select at h
  split at h
  · cases h
  · obtain ⟨e, he, h⟩ := Option.map_eq_some_iff.mp h
    cases h
    exact ⟨⟨e, mem_turns.mp (List.mem_of_getElem? he), rfl⟩, _, rfl⟩

theorem mem_known : v ∈ s.known ↔ ∃ e ∈ s.states, v ∈ e.found := by
  simp [known]

/-- what is known once a check is recorded -/
theorem mem_known_record (h : ∃ e ∈ s.states, e.rule.key = r.key) :
    v ∈ (s.record r found).known ↔
      v ∈ found ∨ ∃ e ∈ s.states, e.rule.key ≠ r.key ∧ v ∈ e.found := by
  have states : (s.record r found).states = s.states.map fun e =>
      if e.rule.key = r.key then
        { e with
          lastChecked := s.cycle
          zeroStreak := if found.isEmpty then e.zeroStreak + 1 else 0
          found := found }
      else e := rfl
  rw [mem_known, states]
  constructor
  · rintro ⟨e, he, hv⟩
    obtain ⟨d, hd, rfl⟩ := List.mem_map.mp he
    by_cases same : d.rule.key = r.key
    · rw [if_pos same] at hv
      exact .inl hv
    · rw [if_neg same] at hv
      exact .inr ⟨d, hd, same, hv⟩
  · rintro (hv | ⟨d, hd, other, hv⟩)
    · obtain ⟨d, hd, same⟩ := h
      exact ⟨_, List.mem_map.mpr ⟨d, hd, rfl⟩, by rw [if_pos same]; exact hv⟩
    · exact ⟨_, List.mem_map.mpr ⟨d, hd, rfl⟩, by rw [if_neg other]; exact hv⟩

/-- taking up what was kept of a schedule changes nothing of what its rules found -/
theorem found_restore (saved : List SavedState) :
    (s.restore saved).states.map (fun e => (e.rule, e.found)) =
      s.states.map fun e => (e.rule, e.found) := by
  have one : ∀ (s : Schedule) (k : SavedState),
      (s.restoreOne k).states.map (fun e => (e.rule, e.found)) = s.states.map fun e => (e.rule, e.found) := by
    intro s k
    unfold restoreOne
    split
    · rfl
    · dsimp only
      split
      · unfold modify
        rw [List.map_map]
        refine List.map_congr_left fun e _ => ?_
        dsimp only [Function.comp]
        split <;> rfl
      · rfl
  unfold restore
  induction saved generalizing s with
  | nil => rfl
  | cons k rest ih => rw [List.foldl_cons, ih, one]

/-- so it changes nothing of what is known -/
theorem known_restore (saved : List SavedState) : (s.restore saved).known = s.known := by
  have found : ∀ s : Schedule, s.known = (s.states.map fun e => (e.rule, e.found)).flatMap Prod.snd := by
    intro s
    rw [List.flatMap_map]
    rfl
  rw [found, found, found_restore]

/-! ### One cycle -/

variable {ε : Type} (check : Rule → Except ε (List Violation))

/-- a cycle looks at the check of no other rule than the one whose turn it is -/
theorem runCycle_congr {f g : Rule → Except ε (List Violation)}
    (same : ∀ r, s.upcoming? = some r → f r = g r) : s.runCycle f = s.runCycle g := by
  unfold runCycle
  cases turn : s.select with
  | none => rfl
  | some p =>
    obtain ⟨rule, t⟩ := p
    dsimp only
    split
    · rfl
    · rename_i named
      rw [same rule (by simp [upcoming?, turn, named])]

/-- the rule that has its turn is one of the schedule -/
theorem exists_of_upcoming_eq_some (h : s.upcoming? = some r) : ∃ e ∈ s.states, e.rule = r := by
  unfold upcoming? at h
  cases turn : s.select with
  | none => simp [turn] at h
  | some p =>
    obtain rfl : p.1 = r := by
      simp only [turn, Option.map_some, Option.filter_eq_some_iff, Option.some.injEq] at h
      exact h.1
    exact (select_eq_some turn).1

/-- a cycle in which no rule has its turn finds nothing and keeps what is known -/
theorem runCycle_of_upcoming_eq_none (h : s.upcoming? = none) :
    (s.runCycle check).1 = .ok (none, []) ∧ (s.runCycle check).2.states = s.states := by
  unfold upcoming? at h
  unfold runCycle
  cases turn : s.select with
  | none => exact ⟨rfl, rfl⟩
  | some p =>
    obtain ⟨rule, t⟩ := p
    obtain ⟨-, cursor, rfl⟩ := select_eq_some turn
    have nameless : rule.key = .null := by simpa [turn, Option.filter] using h
    dsimp only
    rw [if_pos nameless]
    exact ⟨rfl, rfl⟩

/-- a cycle in which a rule has its turn records what its check found, if the check ended well -/
theorem runCycle_of_upcoming_eq_some (h : s.upcoming? = some r) :
    ∃ t : Schedule, t.states = s.states ∧
      (∀ e, check r = .error e → s.runCycle check = (.error e, t)) ∧
      ∀ found, check r = .ok found →
        s.runCycle check = (.ok (some r, (t.record r found).known), t.record r found) := by
  unfold upcoming? at h
  unfold runCycle
  cases turn : s.select with
  | none => simp [turn] at h
  | some p =>
    obtain ⟨rule, t⟩ := p
    obtain ⟨-, cursor, rfl⟩ := select_eq_some turn
    obtain ⟨rfl, named⟩ : rule = r ∧ rule.key ≠ .null := by
      simp only [turn, Option.map_some, Option.filter_eq_some_iff, Option.some.injEq,
        decide_eq_true_eq] at h
      exact ⟨h.1, h.1 ▸ h.2⟩
    refine ⟨{ s with cursor := cursor, cycle := s.cycle + 1 }, rfl, fun e failed => ?_,
      fun found checked => ?_⟩
    · simp only [if_neg named, failed]
    · simp only [if_neg named, checked]

end LintLedger.Schedule
