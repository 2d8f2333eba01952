import LintLedger.Proofs.Schedule.Restart
import Mathlib

/-!
# The rule that is selected

A schedule with rules selects one in every cycle: the first one from the cursor on, round the rules, that may
be checked in that cycle (`MayCheck`), or the one at the cursor if none may.  The cursor is left behind the
rule that is selected, and nothing else changes but the number of the cycle (`select_eq_first`).

So a rule that is backed off comes back before the reduced interval has gone by only if no rule at all may be
checked; in the very first cycle every rule may, but then none has been checked before.
-/

namespace LintLedger.Schedule

variable {s : Schedule} {d e : RuleState} {k : ℕ}

/-- whether a rule may be checked in a cycle: in the first cycle, as long as it has been silent in fewer checks
than the threshold, and once its last check is as many cycles ago as the reduced interval -/
def MayCheck (s : Schedule) (cycle : ℕ) (e : RuleState) : Prop :=
  cycle ≤ 1 ∨ e.zeroStreak < s.zeroThreshold ∨ (s.reducedInterval : ℤ) ≤ cycle - e.lastChecked

instance (s : Schedule) (cycle : ℕ) (e : RuleState) : Decidable (s.MayCheck cycle e) :=
  inferInstanceAs (Decidable (_ ∨ _ ∨ _))

theorem isEligible_advanced_iff_mayCheck :
    s.advanced.isEligible e = true ↔ s.MayCheck (s.cycle + 1) e := by
  have active : s.isBackedOff e = false ↔ e.zeroStreak < s.zeroThreshold := by
    simp [isBackedOff]
  rw [isEligible_advanced_iff, active]
  unfold IsDueAfter MayCheck
  push_cast
  omega

/-- the turn that a cycle takes, told by the places of the rules round from the cursor -/
theorem Takes.round (takes : s.Takes k e) (ranged : s.cursor < s.states.length) :
    k < s.states.length ∧ s.states[(s.cursor + k) % s.states.length]? = some e ∧
      ∀ i < k, ∀ d, s.states[(s.cursor + i) % s.states.length]? = some d →
        ¬ s.MayCheck (s.cycle + 1) d := by
  have within : k < s.states.length := by
    rw [← length_turns]
    exact (List.getElem?_eq_some_iff.mp takes.turn).1
  refine ⟨within, by rw [← getElem?_turns ranged within, takes.turn], fun i before d place => ?_⟩
  rw [← isEligible_advanced_iff_mayCheck, takes.first i before d (by rw [getElem?_turns ranged (by omega), place])]
  exact Bool.false_ne_true

/-- a turn is that of a rule that may be checked, or the very first one while no rule may -/
theorem Takes.mayCheck_or (takes : s.Takes k e) :
    s.MayCheck (s.cycle + 1) e ∨ k = 0 ∧ ∀ d ∈ s.states, ¬ s.MayCheck (s.cycle + 1) d := by
  cases eligible : s.advanced.isEligible e with
  | true => exact .inl (isEligible_advanced_iff_mayCheck.mp eligible)
  | false =>
    obtain ⟨first, none⟩ := takes.forced eligible
    refine .inr ⟨first, fun d hd may => ?_⟩
    have ineligible := none d (mem_turns.mpr hd)
    rw [isEligible_advanced_iff_mayCheck.mpr may] at ineligible
    cases ineligible

/-- **The first rule that may be checked is selected.** In whatever way a schedule with rules has come about,
it selects the first rule from the cursor on, round the rules, that may be checked in the next cycle, or the
one at the cursor if none may; the cursor goes behind that rule, and all else stays as it is.  If the rule has
been silent for as many checks as the threshold, and its last check is fewer cycles ago than the reduced
interval, then no rule at all may be checked; or the next cycle is the first, and the rule has not been checked
yet. -/
theorem select_eq_first (h : Reached s) (some : s.rules ≠ []) :
    ∃ k e, k < s.rules.length ∧ s.states[(s.cursor + k) % s.rules.length]? = .some e ∧
      s.select = .some (e.rule, { s with
        cycle := s.cycle + 1
        cursor := (s.cursor + k + 1) % s.rules.length }) ∧
      (∀ i < k, ∀ d, s.states[(s.cursor + i) % s.rules.length]? = .some d →
        ¬ s.MayCheck (s.cycle + 1) d) ∧
      (s.MayCheck (s.cycle + 1) e ∨ k = 0 ∧ ∀ d ∈ s.states, ¬ s.MayCheck (s.cycle + 1) d) ∧
      (s.zeroThreshold ≤ e.zeroStreak → s.cycle + 1 - e.lastChecked < s.reducedInterval →
        s.cycle = 0 ∧ e.lastChecked ≤ 0 ∨
          0 < s.cycle ∧ ∀ d ∈ s.states, ¬ s.MayCheck (s.cycle + 1) d) := by
  have sound := h.isSound
  have length : s.rules.length = s.states.length := List.length_map _
  have some : s.states ≠ [] := fun none => some (by rw [rules, none]; rfl)
  obtain ⟨⟨r, t⟩, turn⟩ := exists_select_eq_some some
  obtain ⟨k, e, takes, rfl, rfl⟩ := exists_of_select_eq_some turn
  obtain ⟨within, place, first⟩ := takes.round (sound.ranged some)
  rw [length]
  refine ⟨k, e, within, place, turn, first, takes.mayCheck_or, fun silent soon => ?_⟩
  have past := sound.past e (mem_turns.mp (List.mem_of_getElem? takes.turn))
  rcases takes.mayCheck_or with may | ⟨-, none⟩
  · -- a rule that is backed off and was checked so lately may be checked in the first cycle only
    unfold MayCheck at may
    push_cast at may
    omega
  · rcases Nat.eq_zero_or_pos s.cycle with begins | later
    · exact .inl ⟨begins, by omega⟩
    · exact .inr ⟨later, none⟩

/-- a schedule of two rules that are both backed off, with the cursor at the second one -/
def idle : Schedule :=
  let resumed := (start "eslint" 1 5 (["quiet", "silent"].map Rule.ofName)).restore
    [⟨.text "quiet", "eslint", 1, 7⟩, ⟨.text "silent", "eslint", 1, 8⟩]
  (resumed.runCycle fun _ => (.ok [] : Except Unit _)).2

theorem idle_reached : Reached idle :=
  .runCycle (.restore (.start _ _ (by decide) (by decide)) _) _

theorem select_eq_first_idle :
    idle.rules ≠ [] ∧ idle.cursor = 1 ∧
      idle.states.map (fun e => (e.rule.key, e.zeroStreak, e.lastChecked)) =
        [(.text "quiet", 2, 9), (.text "silent", 1, 8)] ∧
      (∀ d ∈ idle.states, ¬ idle.MayCheck 10 d) ∧
      ∃ e : RuleState, e.rule.key = .text "silent" ∧
        idle.select = some (e.rule, { idle with cycle := 10, cursor := 0 }) := by
  have some : idle.rules ≠ [] := by decide +kernel
  have none : ∀ d ∈ idle.states, ¬ idle.MayCheck 10 d := by decide +kernel
  refine ⟨some, by decide +kernel, by decide +kernel, none, ?_⟩
  obtain ⟨k, e, -, place, turn, -, may, -⟩ := select_eq_first idle_reached some
  have cursor : k = 0 := by
    rcases may with may | ⟨first, -⟩
    · exact absurd may (none e (List.mem_of_getElem? place))
    · exact first
  subst cursor
  refine ⟨e, ?_, turn⟩
  have key : (idle.states.map (·.rule.key))[(idle.cursor + 0) % idle.rules.length]? =
      .some (.text "silent") := by decide +kernel
  rw [List.getElem?_map, place] at key
  exact Option.some.inj key

end LintLedger.Schedule
