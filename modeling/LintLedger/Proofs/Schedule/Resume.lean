import LintLedger.Proofs.Schedule.Turns
import Mathlib

/-!
# Taking up what was kept

What is kept of a schedule are the streaks and the last checks of its rules.  A schedule that has not begun
and takes them up, in whatever order, is the one that they were kept of, but for what its rules found and
whose turn it was: it is in the latest cycle in which a rule was checked, and begins again at its first
rule (`IsSound.restore_reset`).
-/

namespace LintLedger

/-- what tells things that were kept from one another: their rule and their engine -/
def SavedState.key (k : SavedState) : Option Key × String := (k.rule.key?, k.engine)

/-- what is known of a rule of an engine once something has been taken up, if it was kept of that rule -/
def RuleState.resume (engine : String) (e : RuleState) (k : SavedState) : RuleState :=
  if k.key = (some e.rule.key, engine) then
    { e with zeroStreak := k.zeroStreak, lastChecked := k.lastChecked }
  else e

/-- a rule as it is after a restart, when nothing is known of what it found -/
def RuleState.forgotten (e : RuleState) : RuleState := { e with found := [] }

namespace Schedule

variable {s : Schedule} {e : RuleState} {k : SavedState} {kept : List SavedState}

/-! ### Opening a schedule again -/

/-- the latest cycle in which a rule was checked -/
def latest (s : Schedule) : Nat := (s.states.map (·.lastChecked.toNat)).foldr max 0

/-- a schedule as it is after a restart -/
def reopened (s : Schedule) : Schedule :=
  { s with states := s.states.map RuleState.forgotten, cursor := 0, cycle := s.latest, lastRule := none }

theorem le_latest (he : e ∈ s.states) : e.lastChecked ≤ s.latest := by
  have le : e.lastChecked.toNat ≤ s.latest :=
    List.le_max_of_le (List.mem_map.mpr ⟨e, he, rfl⟩) le_rfl
  omega

theorem latest_le {n : Nat} (h : ∀ e ∈ s.states, e.lastChecked ≤ n) : s.latest ≤ n := by
  refine List.max_le_of_forall_le _ _ fun m hm => ?_
  obtain ⟨e, he, rfl⟩ := List.mem_map.mp hm
  have := h e he
  omega

theorem IsSound.reopened (h : s.IsSound) : s.reopened.IsSound := by
  refine ⟨h.threshold, h.interval, fun some => List.length_pos_iff.mpr some, ?_, fun d hd => ?_⟩
  · have keys : s.reopened.states.map (·.rule.key) = s.states.map (·.rule.key) := by
      simp [Schedule.reopened, RuleState.forgotten]
    rw [keys]
    exact h.distinct
  · obtain ⟨e, he, rfl⟩ := List.mem_map.mp hd
    exact le_latest (e := e) he

/-! ### What is taken up -/

/-- something kept of another rule, or of another engine, changes nothing of what is known -/
theorem map_resume_of_other {engine : String} {states : List RuleState}
    (other : ∀ e ∈ states, k.key ≠ (some e.rule.key, engine)) : states.map (·.resume engine k) = states :=
  (List.map_congr_left fun e he => if_neg (other e he)).trans (List.map_id' _)

/-- what was kept is passed over or taken up, just as it is of one of the rules -/
theorem restoreOne_cases :
    (∀ e ∈ s.states, k.key ≠ (some e.rule.key, s.engine)) ∧ s.restoreOne k = s ∨
    (∃ e ∈ s.states, k.key = (some e.rule.key, s.engine)) ∧
      s.restoreOne k = { s with
        states := s.states.map (·.resume s.engine k)
        cycle := max s.cycle k.lastChecked.toNat } := by
  unfold restoreOne
  cases named : k.rule.key? with
  | none =>
    refine .inl ⟨fun e _ own => ?_, rfl⟩
    have none := congrArg Prod.fst own
    simp only [SavedState.key, named] at none
    cases none
  | some key =>
    have own : ∀ e : RuleState, k.key = (some e.rule.key, s.engine) ↔ e.rule.key = key ∧ k.engine = s.engine := by
      intro e
      simp only [SavedState.key, named, Prod.mk.injEq, Option.some.injEq]
      rw [eq_comm]
    have takes : ((s.state? key).isSome && decide (k.engine = s.engine)) = true ↔
        ∃ e ∈ s.states, k.key = (some e.rule.key, s.engine) := by
      have known : (s.state? key).isSome = true ↔ ∃ e ∈ s.states, e.rule.key = key := by simp [state?]
      rw [Bool.and_eq_true, decide_eq_true_eq, known]
      simp only [own]
      exact ⟨fun ⟨⟨e, he, same⟩, engine⟩ => ⟨e, he, same, engine⟩,
        fun ⟨e, he, same, engine⟩ => ⟨⟨e, he, same⟩, engine⟩⟩
    dsimp only
    by_cases taken : ∃ e ∈ s.states, k.key = (some e.rule.key, s.engine)
    · have engine : k.engine = s.engine := by
        obtain ⟨e, -, same⟩ := taken
        exact ((own e).mp same).2
      rw [if_pos (takes.mpr taken)]
      have states : s.states.map (·.resume s.engine k) = s.states.map fun e =>
          if e.rule.key = key then
            { e with zeroStreak := k.zeroStreak, lastChecked := k.lastChecked }
          else e := by
        refine List.map_congr_left fun e _ => ?_
        unfold RuleState.resume
        simp only [own, engine, and_true]
      exact .inr ⟨taken, by rw [states]; rfl⟩
    · rw [if_neg (mt takes.mp taken)]
      exact .inl ⟨fun e he same => taken ⟨e, he, same⟩, rfl⟩

/-- what is taken up of one rule changes what is known of that rule, and the cycle if it was later -/
theorem exists_restoreOne_eq : ∃ cycle,
    s.restoreOne k = { s with states := s.states.map (·.resume s.engine k), cycle := cycle } ∧
      ∀ n, s.cycle ≤ n → (∀ e ∈ s.states, k.key = (some e.rule.key, s.engine) → k.lastChecked ≤ n) →
        cycle ≤ n := by
  rcases restoreOne_cases (s := s) (k := k) with ⟨other, passed⟩ | ⟨⟨e, he, own⟩, taken⟩
  · refine ⟨s.cycle, ?_, fun n le _ => le⟩
    rw [passed, map_resume_of_other other]
  · refine ⟨_, taken, fun n le later => ?_⟩
    have := later e he own
    omega

theorem rule_resume {engine : String} : (e.resume engine k).rule = e.rule := by
  unfold RuleState.resume
  split <;> rfl

theorem rule_foldl_resume {engine : String} : (kept.foldl (·.resume engine ·) e).rule = e.rule := by
  induction kept generalizing e with
  | nil => rfl
  | cons k rest ih => exact ih.trans rule_resume

/-- all that is taken up -/
theorem exists_restore_eq : ∃ cycle,
    s.restore kept = { s with states := s.states.map (kept.foldl (·.resume s.engine ·)), cycle := cycle } ∧
      ∀ n, s.cycle ≤ n →
        (∀ k ∈ kept, ∀ e ∈ s.states, k.key = (some e.rule.key, s.engine) → k.lastChecked ≤ n) →
        cycle ≤ n := by
  unfold restore
  induction kept generalizing s with
  | nil => exact ⟨s.cycle, by simp, fun n le _ => le⟩
  | cons k rest ih =>
    obtain ⟨cycle, one, bound⟩ := exists_restoreOne_eq (s := s) (k := k)
    obtain ⟨cycle', all, bound'⟩ := ih (s := s.restoreOne k)
    refine ⟨cycle', ?_, fun n le later => bound' n ?_ fun l hl e he own => ?_⟩
    · rw [List.foldl_cons, all, one]
      simp only [List.map_map]
      rfl
    · rw [one]
      exact bound n le fun e he own => later k List.mem_cons_self e he own
    · rw [one] at he own
      obtain ⟨d, hd, rfl⟩ := List.mem_map.mp he
      rw [rule_resume] at own
      exact later l (List.mem_cons_of_mem k hl) d hd own

theorem cursor_restore (kept : List SavedState) : (s.restore kept).cursor = s.cursor := by
  obtain ⟨cycle, taken, -⟩ := @exists_restore_eq s kept
  rw [taken]

/-- of things that were kept of different rules, only the one that was kept of a rule is taken up for it -/
theorem foldl_resume {engine : String} (apart : (kept.map SavedState.key).Nodup) (hk : k ∈ kept)
    (own : k.key = (some e.rule.key, engine)) :
    kept.foldl (·.resume engine ·) e =
      { e with zeroStreak := k.zeroStreak, lastChecked := k.lastChecked } := by
  have others : ∀ (kept : List SavedState) (e : RuleState),
      (∀ l ∈ kept, l.key ≠ (some e.rule.key, engine)) → kept.foldl (·.resume engine ·) e = e := by
    intro kept e other
    induction kept with
    | nil => rfl
    | cons l rest ih =>
      rw [List.foldl_cons, RuleState.resume, if_neg (other l List.mem_cons_self)]
      exact ih fun m hm => other m (List.mem_cons_of_mem l hm)
  obtain ⟨before, after, rfl⟩ := List.append_of_mem hk
  rw [List.map_append, List.map_cons] at apart
  have apart' := List.nodup_middle.mp apart
  rw [List.nodup_cons, List.mem_append, not_or] at apart'
  have left := others before e fun l hl same =>
    apart'.1.1 (List.mem_map.mpr ⟨l, hl, same.trans own.symm⟩)
  have right := others after { e with zeroStreak := k.zeroStreak, lastChecked := k.lastChecked }
    fun l hl same => apart'.1.2 (List.mem_map.mpr ⟨l, hl, same.trans own.symm⟩)
  rw [List.foldl_append, left, List.foldl_cons, RuleState.resume, if_pos own, right]

/-- a schedule that begins again knows nothing of its rules -/
theorem IsSound.states_reset (h : s.IsSound) : s.reset.states = s.states.map fun e => .fresh e.rule := by
  have distinct : (s.rules.map Rule.key).Nodup := by
    simpa [rules, Function.comp_def] using h.distinct
  change (distinctBy Rule.key s.rules).map RuleState.fresh = _
  rw [distinctBy_eq_self distinct, rules, List.map_map]
  rfl

/-- what was kept of a rule is what is known of it -/
theorem exists_kept (all : ∀ k ∈ s.saved, k ∈ kept) (he : e ∈ s.states)
    (named : e.rule.value.key? = some e.rule.key) :
    ∃ k ∈ kept, k.key = (some e.rule.key, s.engine) ∧ k.zeroStreak = e.zeroStreak ∧
      k.lastChecked = e.lastChecked := by
  refine ⟨_, all _ (List.mem_map.mpr ⟨e, he, rfl⟩), ?_, rfl, rfl⟩
  rw [SavedState.key, named]

/-- A sound schedule that has not begun and takes up all that was kept of another with its rules is that
one opened again. -/
theorem IsSound.restore_reset (h : s.IsSound) (named : ∀ e ∈ s.states, e.rule.value.key? = some e.rule.key)
    (apart : (kept.map SavedState.key).Nodup) (all : ∀ k ∈ s.saved, k ∈ kept) :
    s.reset.restore kept = s.reopened := by
  obtain ⟨cycle, taken, bound⟩ := @exists_restore_eq s.reset kept
  have states : s.reset.states.map (kept.foldl (·.resume s.engine ·)) = s.states.map .forgotten := by
    rw [h.states_reset, List.map_map]
    refine List.map_congr_left fun e he => ?_
    obtain ⟨k, hk, mark, streak, last⟩ := exists_kept all he (named e he)
    dsimp only [Function.comp]
    rw [foldl_resume (e := .fresh e.rule) apart hk mark, streak, last]
    rfl
  have latest : cycle = s.latest := by
    refine le_antisymm (bound _ (Nat.zero_le _) fun k hk d hd mark => ?_) ?_
    · rw [h.states_reset] at hd
      obtain ⟨e, he, rfl⟩ := List.mem_map.mp hd
      obtain ⟨l, hl, mark', -, last⟩ := exists_kept all he (named e he)
      obtain rfl : k = l := List.inj_on_of_nodup_map apart hk hl (mark.trans mark'.symm)
      rw [last]
      exact le_latest he
    · have sound : (s.reset.restore kept).IsSound :=
        (IsSound.start s.engine s.rules h.threshold h.interval).restore kept
      rw [taken] at sound
      exact latest_le fun e he => sound.past e.forgotten (states ▸ List.mem_map_of_mem he)
  rw [taken, latest]
  change Schedule.mk s.engine s.zeroThreshold s.reducedInterval
    (s.reset.states.map (kept.foldl (·.resume s.engine ·))) 0 s.latest none = s.reopened
  rw [states]
  rfl

end Schedule

end LintLedger
