import LintLedger.Proofs.Schedule.Record
import Mathlib

/-!
# Whose turn it is

Turns are counted from the cursor on, round the rules.  The next cycle takes the first turn of a rule
that is eligible in it, or the very first turn if no rule is (`exists_of_select_eq_some`), and leaves the
cursor behind that turn.

A schedule is *sound* if its cursor points at a rule, no two of its rules are the same, and no rule was
last checked in a cycle that is still to come (`IsSound`).  Every schedule is, whatever turns were taken,
checks recorded, kept schedules taken up and rules replaced before (`Reached.isSound`).
-/

namespace LintLedger.Schedule

variable {s t : Schedule} {r : Rule} {e : RuleState}

/-! ### The turn of a cycle -/

/-- a schedule in its next cycle, before a turn is taken -/
def advanced (s : Schedule) : Schedule := { s with cycle := s.cycle + 1 }

theorem length_turns : s.turns.length = s.states.length := by
  simp only [turns, List.length_append, List.length_drop, List.length_take]
  omega

/-- the turns, from the cursor on -/
theorem getElem?_turns (ranged : s.cursor < s.states.length) {k : Nat} (within : k < s.states.length) :
    s.turns[k]? = s.states[(s.cursor + k) % s.states.length]? := by
  have rotated : s.turns = s.states.rotate s.cursor :=
    (List.rotate_eq_drop_append_take ranged.le).symm
  rw [rotated, List.getElem?_rotate within, Nat.add_comm]

/-- every place among the rules is some turns ahead of the cursor -/
theorem exists_turn (ranged : s.cursor < s.states.length) {j : Nat} (within : j < s.states.length) :
    ∃ d < s.states.length, (s.cursor + d) % s.states.length = j := by
  refine ⟨(j + s.states.length - s.cursor) % s.states.length, Nat.mod_lt _ (by omega), ?_⟩
  have round : s.cursor + (j + s.states.length - s.cursor) = j + s.states.length := by omega
  rw [Nat.add_mod_mod, round, Nat.add_mod_right, Nat.mod_eq_of_lt within]

/-- the turn that a cycle takes: the first of a rule that is eligible in it, or the very first if no
rule is -/
structure Takes (s : Schedule) (k : Nat) (e : RuleState) : Prop where
  turn : s.turns[k]? = some e
  first : ∀ i < k, ∀ d, s.turns[i]? = some d → s.advanced.isEligible d = false
  forced : s.advanced.isEligible e = false → k = 0 ∧ ∀ d ∈ s.turns, s.advanced.isEligible d = false

theorem takes_passed (h : s.turns[s.advanced.passed]? = some e) : s.Takes s.advanced.passed e := by
  have passed : s.advanced.passed = (s.turns.findIdx? s.advanced.isEligible).getD 0 := rfl
  cases found : s.turns.findIdx? s.advanced.isEligible with
  | none =>
    rw [found, Option.getD_none] at passed
    rw [List.findIdx?_eq_none_iff] at found
    exact ⟨h, fun i before => by omega, fun _ => ⟨passed, found⟩⟩
  | some k =>
    rw [found, Option.getD_some] at passed
    obtain ⟨within, eligible, first⟩ := List.findIdx?_eq_some_iff_getElem.mp found
    rw [passed] at h ⊢
    obtain rfl : s.turns[k] = e := by simpa [List.getElem?_eq_getElem within] using h
    refine ⟨h, fun i before d turn => ?_, fun ineligible => by simp [eligible] at ineligible⟩
    obtain ⟨hi, rfl⟩ := List.getElem?_eq_some_iff.mp turn
    simpa using first i before

/-- what taking a turn does -/
theorem exists_of_select_eq_some (h : s.select = some (r, t)) :
    ∃ k e, s.Takes k e ∧ e.rule = r ∧
      t = { s with cycle := s.cycle + 1, cursor := (s.cursor + k + 1) % s.states.length } := by
  unfold select at h
  split at h
  · cases h
  · obtain ⟨e, turn, h⟩ := Option.map_eq_some_iff.mp h
    cases h
    exact ⟨_, e, takes_passed turn, rfl, rfl⟩

/-- a schedule with rules has a turn to take -/
theorem exists_select_eq_some (some : s.states ≠ []) : ∃ p, s.select = .some p := by
  have positive : 0 < s.states.length := List.length_pos_iff.mpr some
  have within : s.advanced.passed < s.turns.length := by
    have passed : s.advanced.passed = (s.turns.findIdx? s.advanced.isEligible).getD 0 := rfl
    rw [passed]
    cases found : s.turns.findIdx? s.advanced.isEligible with
    | none => simpa [length_turns] using positive
    | some k => exact (List.findIdx?_eq_some_iff_getElem.mp found).1
  unfold select
  rw [if_neg (by simpa using some)]
  exact ⟨_, Option.map_eq_some_iff.mpr ⟨_, List.getElem?_eq_getElem within, rfl⟩⟩

/-! ### Sound schedules -/

/-- what holds of every schedule, in whatever way it has come about -/
structure IsSound (s : Schedule) : Prop where
  threshold : 0 < s.zeroThreshold
  interval : 0 < s.reducedInterval
  ranged : s.states ≠ [] → s.cursor < s.states.length
  distinct : (s.states.map (·.rule.key)).Nodup
  past : ∀ e ∈ s.states, e.lastChecked ≤ s.cycle

/-- the rule of a key in a sound schedule has one state -/
theorem IsSound.eq_of_key (h : s.IsSound) {d : RuleState} (hd : d ∈ s.states) (he : e ∈ s.states)
    (same : d.rule.key = e.rule.key) : d = e :=
  List.inj_on_of_nodup_map h.distinct hd he same

theorem IsSound.start (engine : String) {zeroThreshold reducedInterval : Nat} (rules : List Rule)
    (threshold : 0 < zeroThreshold) (interval : 0 < reducedInterval) :
    (start engine zeroThreshold reducedInterval rules).IsSound where
  threshold := threshold
  interval := interval
  ranged some := List.length_pos_iff.mpr some
  distinct := by
    have apart : ((Rule.distinct rules).map Rule.key).Nodup :=
      List.pairwise_map.mpr (pairwise_distinctBy Rule.key rules)
    simpa [Schedule.start, Function.comp_def, RuleState.fresh] using apart
  past e he := by
    obtain ⟨r, -, rfl⟩ := List.mem_map.mp he
    exact le_refl _

theorem IsSound.select (h : s.IsSound) (turn : s.select = some (r, t)) : t.IsSound := by
  obtain ⟨k, e, takes, -, rfl⟩ := exists_of_select_eq_some turn
  refine ⟨h.threshold, h.interval, fun some => Nat.mod_lt _ (List.length_pos_iff.mpr some), h.distinct,
    fun d hd => ?_⟩
  have := h.past d hd
  push_cast
  omega

/-- changing what is known of one rule, but for the rule itself, keeps a schedule sound if the change
looks back only -/
theorem IsSound.modify (h : s.IsSound) {key : Key} {f : RuleState → RuleState}
    (same : ∀ d, (f d).rule = d.rule) (past : ∀ d ∈ s.states, (f d).lastChecked ≤ s.cycle) :
    (s.modify key f).IsSound := by
  refine ⟨h.threshold, h.interval, fun some => ?_, ?_, fun d hd => ?_⟩
  · simpa [Schedule.modify] using h.ranged (by simpa [Schedule.modify] using some)
  · have keys : (s.modify key f).states.map (·.rule.key) = s.states.map (·.rule.key) := by
      unfold Schedule.modify
      rw [List.map_map]
      refine List.map_congr_left fun d _ => ?_
      dsimp only [Function.comp]
      split
      · rw [same]
      · rfl
    rw [keys]
    exact h.distinct
  · obtain ⟨c, hc, rfl⟩ := List.mem_map.mp hd
    split
    · exact past c hc
    · exact h.past c hc

theorem IsSound.record (h : s.IsSound) (r : Rule) (found : List Violation) :
    (s.record r found).IsSound := by
  have changed : (s.modify r.key fun e =>
      { e with
        lastChecked := s.cycle
        zeroStreak := if found.isEmpty then e.zeroStreak + 1 else 0
        found := found }).IsSound :=
    h.modify (fun _ => rfl) fun _ _ => le_refl _
  exact ⟨changed.threshold, changed.interval, changed.ranged, changed.distinct, changed.past⟩

/-- a later cycle does not make a schedule unsound -/
theorem IsSound.later (h : s.IsSound) {cycle : Nat} (le : s.cycle ≤ cycle) :
    { s with cycle := cycle }.IsSound := by
  refine ⟨h.threshold, h.interval, h.ranged, h.distinct, fun e he => (h.past e he).trans ?_⟩
  exact_mod_cast le

theorem IsSound.restoreOne (h : s.IsSound) (saved : SavedState) : (s.restoreOne saved).IsSound := by
  unfold Schedule.restoreOne
  split
  · exact h
  · rename_i key _
    dsimp only
    split
    · -- the cycle goes on first, so that what is taken up lies behind it
      have later := h.later (le_max_left s.cycle saved.lastChecked.toNat)
      refine later.modify (fun _ => rfl) fun _ _ => ?_
      exact (Int.self_le_toNat _).trans (by exact_mod_cast le_max_right _ _)
    · exact h

theorem IsSound.restore (h : s.IsSound) (saved : List SavedState) : (s.restore saved).IsSound := by
  unfold Schedule.restore
  induction saved generalizing s with
  | nil => exact h
  | cons one rest ih => exact ih (h.restoreOne one)

theorem IsSound.runCycle {ε : Type} (h : s.IsSound) (check : Rule → Except ε (List Violation)) :
    (s.runCycle check).2.IsSound := by
  unfold Schedule.runCycle
  cases turn : s.select with
  | none => exact h
  | some p =>
    obtain ⟨rule, t⟩ := p
    have next := h.select turn
    dsimp only
    split
    · exact next
    · split
      · exact next
      · exact next.record _ _

/-- the schedules that come about from one that has not begun by taking turns, recording checks of its
rules, cycles, taking up kept schedules of any kind, beginning again and being given other rules -/
inductive Reached : Schedule → Prop
  | start (engine : String) {zeroThreshold reducedInterval : Nat} (rules : List Rule)
      (threshold : 0 < zeroThreshold) (interval : 0 < reducedInterval) :
      Reached (.start engine zeroThreshold reducedInterval rules)
  | select {s t : Schedule} {r : Rule} (before : Reached s) (turn : s.select = some (r, t)) : Reached t
  | record {s : Schedule} {r : Rule} (before : Reached s) (known : (s.state? r.key).isSome = true)
      (found : List Violation) : Reached (s.record r found)
  | runCycle {s : Schedule} {ε : Type} (before : Reached s)
      (check : Rule → Except ε (List Violation)) : Reached (s.runCycle check).2
  | restore {s : Schedule} (before : Reached s) (saved : List SavedState) : Reached (s.restore saved)
  | reset {s : Schedule} (before : Reached s) : Reached s.reset
  | withRules {s : Schedule} (before : Reached s) (rules : List Rule) : Reached (s.withRules rules)

theorem Reached.isSound (h : Reached s) : s.IsSound := by
  induction h with
  | start engine rules threshold interval => exact .start engine rules threshold interval
  | select _ turn ih => exact ih.select turn
  | record _ _ found ih => exact ih.record _ found
  | runCycle _ check ih => exact ih.runCycle check
  | restore _ saved ih => exact ih.restore saved
  | reset _ ih => exact .start _ _ ih.threshold ih.interval
  | withRules _ rules ih => exact .start _ rules ih.threshold ih.interval

end LintLedger.Schedule
