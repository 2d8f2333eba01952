import LintLedger.Proofs.Schedule.Fairness
import LintLedger.Proofs.Schedule.Resume
import Mathlib

/-!
# Turns after a restart

What is kept of a schedule from one run to the next is how long each rule has found nothing and when it
was checked last.  Whose turn it is, is not kept: a schedule that is opened again begins at its first rule
(`reopened`).  So a cycle after a restart asks for the first rule, in the order of the rules, that is
eligible, and for the very first one if none is.

If there is a restart before every cycle, a rule has its turn only while no rule before it is eligible.
A rule whose place is below the reduced interval still has its turn as long as every rule before it is
backed off (`IsSound.asked_after_restarts`): these rules need their turns only once in as many cycles as
the interval, which is more than there are of them.  But a rule that is busy keeps all rules behind it
waiting, and a rule with as many rules before it as the interval counts is never asked for, whatever the
checks answer (`IsSound.exists_place_of_restarts`).
-/

namespace LintLedger

namespace Schedule

variable {s t : Schedule} {r : Rule} {d e : RuleState} {ε : Type} {j : Nat}

/-! ### Cycles with a restart after each of them -/

/-- the schedules that there are before each of some cycles if there is a restart after each of them -/
def restarts (s : Schedule) : List (Rule → Except ε (List Violation)) → List Schedule
  | [] => []
  | check :: rest => s :: (s.runCycle check).2.reopened.restarts rest

theorem length_restarts (checks : List (Rule → Except ε (List Violation))) :
    (s.restarts checks).length = checks.length := by
  induction checks generalizing s with
  | nil => rfl
  | cons check rest ih => rw [restarts, List.length_cons, List.length_cons, ih]

/-- whether two schedules are of one engine, with the same rules and terms -/
structure IsAlike (s t : Schedule) : Prop where
  engine : t.engine = s.engine
  threshold : t.zeroThreshold = s.zeroThreshold
  interval : t.reducedInterval = s.reducedInterval
  rules : t.rules = s.rules

theorem IsAlike.trans {u : Schedule} (h : s.IsAlike t) (g : t.IsAlike u) : s.IsAlike u :=
  ⟨g.engine.trans h.engine, g.threshold.trans h.threshold, g.interval.trans h.interval,
    g.rules.trans h.rules⟩

theorem IsAlike.reset (h : s.IsAlike t) : t.reset = s.reset := by
  unfold Schedule.reset
  rw [h.engine, h.threshold, h.interval, h.rules]

theorem isAlike_runCycle (check : Rule → Except ε (List Violation)) : s.IsAlike (s.runCycle check).2 := by
  unfold runCycle
  cases turn : s.select with
  | none => exact ⟨rfl, rfl, rfl, rfl⟩
  | some p =>
    obtain ⟨rule, t⟩ := p
    obtain ⟨-, cursor, rfl⟩ := select_eq_some turn
    dsimp only
    split
    · exact ⟨rfl, rfl, rfl, rfl⟩
    · split
      · exact ⟨rfl, rfl, rfl, rfl⟩
      · refine ⟨rfl, rfl, rfl, ?_⟩
        unfold rules record modify
        rw [List.map_map]
        refine List.map_congr_left fun d _ => ?_
        dsimp only [Function.comp]
        split <;> rfl

theorem isAlike_reopened : s.IsAlike s.reopened := ⟨rfl, rfl, rfl, List.map_map⟩

theorem isAlike_restore (kept : List SavedState) : s.IsAlike (s.restore kept) := by
  unfold restore
  induction kept generalizing s with
  | nil => exact ⟨rfl, rfl, rfl, rfl⟩
  | cons k rest ih =>
    obtain ⟨cycle, one, -⟩ := exists_restoreOne_eq (s := s) (k := k)
    refine IsAlike.trans (t := s.restoreOne k) ?_ ih
    rw [one]
    refine ⟨rfl, rfl, rfl, ?_⟩
    unfold rules
    rw [List.map_map]
    exact List.map_congr_left fun e _ => rule_resume

/-- whether a check answers, whatever rule it is given -/
def Answers (check : Rule → Except ε (List Violation)) : Prop := ∀ r, ∃ found, check r = .ok found

/-- a cycle that ends well might have asked a check that always answers -/
theorem exists_answers {check : Rule → Except ε (List Violation)} {p : Option Rule × List Violation}
    (h : (s.runCycle check).1 = .ok p) :
    ∃ check' : Rule → Except ε (List Violation), s.runCycle check' = s.runCycle check ∧ Answers check' := by
  cases next : s.upcoming? with
  | none =>
    refine ⟨fun _ => .ok [], runCycle_congr fun r upcoming => ?_, fun _ => ⟨[], rfl⟩⟩
    rw [next] at upcoming
    cases upcoming
  | some r =>
    obtain ⟨t, -, failed, -⟩ := runCycle_of_upcoming_eq_some check next
    cases answer : check r with
    | error f =>
      rw [failed f answer] at h
      cases h
    | ok found =>
      refine ⟨fun _ => .ok found, runCycle_congr fun other upcoming => ?_, fun _ => ⟨found, rfl⟩⟩
      rw [next] at upcoming
      cases upcoming
      exact answer.symm

/-- no rule was checked later than one whose check has just been recorded -/
theorem latest_record {found : List Violation} (past : ∀ d ∈ s.states, d.lastChecked ≤ s.cycle)
    (he : e ∈ s.states) : (s.record e.rule found).latest = s.cycle := by
  have states : (s.record e.rule found).states = s.states.map fun d =>
      if d.rule.key = e.rule.key then
        { d with
          lastChecked := s.cycle
          zeroStreak := if found.isEmpty then d.zeroStreak + 1 else 0
          found := found }
      else d := rfl
  refine le_antisymm (latest_le fun d hd => ?_) ?_
  · rw [states] at hd
    obtain ⟨c, hc, rfl⟩ := List.mem_map.mp hd
    split
    · exact le_rfl
    · exact past c hc
  · have own := le_latest (states ▸ List.mem_map.mpr ⟨e, he, rfl⟩)
    rw [if_pos rfl] at own
    dsimp only at own
    exact_mod_cast own

/-- a schedule that begins at its first rule has its turns in the order of the rules -/
theorem turns_of_cursor_eq_zero (first : s.cursor = 0) : s.turns = s.states := by
  simp [turns, first]

/-- what a cycle that asked for a rule and a restart after it make of a schedule -/
structure Restarted (s : Schedule) (e : RuleState) (t : Schedule) : Prop where
  cursor : t.cursor = 0
  cycle : t.cycle = s.cycle + 1
  interval : t.reducedInterval = s.reducedInterval
  states : ∃ f : RuleState → RuleState, t.states = s.states.map f ∧ ∀ d, (f d).rule = d.rule ∧
    (f d).lastChecked = if d.rule.key = e.rule.key then (s.cycle + 1 : Int) else d.lastChecked

/-- a cycle whose check answers, and a restart after it -/
theorem IsSound.exists_restarted (h : s.IsSound) (some : s.states ≠ [])
    (named : ∀ d ∈ s.states, d.rule.key ≠ .null) {check : Rule → Except ε (List Violation)}
    (answers : Answers check) :
    ∃ k e, s.Takes k e ∧ s.asked? = .some e.rule ∧ s.Restarted e (s.runCycle check).2.reopened := by
  obtain ⟨⟨rule, t⟩, turn⟩ := exists_select_eq_some some
  obtain ⟨k, e, takes, rfl, rfl⟩ := exists_of_select_eq_some turn
  have mem : e ∈ s.states := mem_turns.mp (List.mem_of_getElem? takes.turn)
  obtain ⟨found, answer⟩ := answers e.rule
  refine ⟨k, e, takes, ?_, ?_⟩
  · rw [asked?_eq_upcoming?, upcoming?, turn]
    simp [named e mem]
  unfold Schedule.runCycle
  rw [turn]
  dsimp only
  rw [if_neg (named e mem), answer]
  dsimp only
  refine ⟨rfl, latest_record (fun d hd => ?_) mem, rfl, _, List.map_map, fun d => ?_⟩
  · have := h.past d hd
    push_cast
    omega
  · dsimp only [Function.comp, RuleState.forgotten]
    split
    · exact ⟨rfl, by push_cast; rfl⟩
    · exact ⟨rfl, rfl⟩

/-! ### A rule behind others that are backed off -/

/-- the rules that may be checked in the next cycle -/
theorem isEligible_advanced_iff : s.advanced.isEligible d = true ↔
    s.cycle = 0 ∨ s.isBackedOff d = false ∨ s.IsDueAfter d 0 := by
  have cycle : s.advanced.cycle = s.cycle + 1 := rfl
  have interval : s.advanced.reducedInterval = s.reducedInterval := rfl
  have backedOff : s.advanced.isBackedOff d = s.isBackedOff d := rfl
  unfold isEligible IsDueAfter
  simp only [Bool.or_eq_true, decide_eq_true_eq, Bool.not_eq_true', or_assoc]
  rw [cycle, interval, backedOff]
  push_cast
  refine or_congr (by omega) (or_congr_right ?_)
  rw [add_zero]

/-- whether a rule has not been checked since a cycle -/
def isUnchecked (cycle : Nat) (e : RuleState) : Bool := e.lastChecked ≤ (cycle : Int)

/-- the number of the first rules of a schedule that have not been checked since a cycle -/
def unchecked (s : Schedule) (j cycle : Nat) : Nat := (s.states.take j).countP (isUnchecked cycle)

/-- a check of a rule that has not been checked since a cycle leaves one less of these -/
theorem Restarted.unchecked_lt (next : s.Restarted d t) {cycle : Nat} (hd : d ∈ s.states.take j)
    (old : d.lastChecked ≤ cycle) (since : cycle ≤ s.cycle) : t.unchecked j cycle < s.unchecked j cycle := by
  obtain ⟨f, states, kept⟩ := next.states
  have fewer : ∀ l : List RuleState, l.countP (isUnchecked cycle ∘ f) ≤ l.countP (isUnchecked cycle) := by
    refine fun l => List.countP_mono_left fun c _ old' => ?_
    have last := (kept c).2
    simp only [Function.comp, isUnchecked, decide_eq_true_eq] at old' ⊢
    split at last <;> omega
  have own : ¬(isUnchecked cycle ∘ f) d = true := by
    have last := (kept d).2
    rw [if_pos rfl] at last
    simp only [Function.comp, isUnchecked, decide_eq_true_eq]
    omega
  have own' : isUnchecked cycle d = true := decide_eq_true old
  obtain ⟨before, after, parts⟩ := List.append_of_mem hd
  unfold unchecked
  rw [states, ← List.map_take, List.countP_map, parts, List.countP_append, List.countP_append,
    List.countP_cons_of_neg own, List.countP_cons_of_pos own']
  have := fewer before
  have := fewer after
  omega

theorem Restarted.named (next : s.Restarted d t) (named : ∀ c ∈ s.states, c.rule.key ≠ .null) :
    ∀ c ∈ t.states, c.rule.key ≠ .null := by
  obtain ⟨f, states, kept⟩ := next.states
  intro c hc
  rw [states] at hc
  obtain ⟨b, hb, rfl⟩ := List.mem_map.mp hc
  rw [(kept b).1]
  exact named b hb

/-- a rule that is not asked for stays in its place, and its last check what it was -/
theorem Restarted.exists_other (next : s.Restarted d t) (he : s.states[j]? = some e)
    (other : e.rule.key ≠ d.rule.key) :
    ∃ e', t.states[j]? = some e' ∧ e'.rule = e.rule ∧ ∀ waiting,
      s.IsDueAfter e (waiting + 1) → t.IsDueAfter e' waiting := by
  obtain ⟨f, states, kept⟩ := next.states
  have last := (kept e).2
  rw [if_neg other] at last
  refine ⟨f e, by rw [states, List.getElem?_map, he]; rfl, (kept e).1, fun waiting due => ?_⟩
  unfold IsDueAfter at due ⊢
  rw [next.interval, next.cycle, last]
  push_cast at due ⊢
  omega

theorem IsDueAfter.mono {few many : Nat} (h : s.IsDueAfter e few) (le : few ≤ many) :
    s.IsDueAfter e many := by
  unfold IsDueAfter at h ⊢
  omega

/-- A cycle asks for a rule or for another one.  If the rule is due, that one has its place before it and
is eligible. -/
theorem IsSound.next_after_restart (h : s.IsSound) (first : s.cursor = 0)
    (named : ∀ d ∈ s.states, d.rule.key ≠ .null) (he : s.states[j]? = some e)
    {check : Rule → Except ε (List Violation)} (answers : Answers check) :
    s.asked? = some e.rule ∨ ∃ d, s.Restarted d (s.runCycle check).2.reopened ∧
      e.rule.key ≠ d.rule.key ∧
      (s.IsDueAfter e 0 → d ∈ s.states.take j ∧ s.advanced.isEligible d = true) := by
  have some : s.states ≠ [] := by
    rintro none
    simp [none] at he
  obtain ⟨k, d, takes, asks, next⟩ := h.exists_restarted some named answers
  have turns := turns_of_cursor_eq_zero first
  have turn : s.states[k]? = .some d := turns ▸ takes.turn
  by_cases same : e.rule.key = d.rule.key
  · obtain rfl : e = d := h.eq_of_key (List.mem_of_getElem? he) (List.mem_of_getElem? turn) same
    exact .inl asks
  refine .inr ⟨d, next, same, fun due => ?_⟩
  have eligible := isEligible_of_isDueAfter due
  constructor
  · have before : k < j := by
      rcases lt_trichotomy k j with before | rfl | behind
      · exact before
      · rw [turn] at he
        exact absurd (congrArg (·.rule.key) (Option.some.inj he)).symm same
      · have ineligible := takes.first j behind e (turns ▸ he)
        rw [eligible] at ineligible
        cases ineligible
    exact List.mem_of_getElem? ((List.getElem?_take_of_lt before).trans turn)
  · by_contra ineligible
    have none := (takes.forced (by simpa using ineligible)).2 e (turns ▸ List.mem_of_getElem? he)
    rw [eligible] at none
    cases none

/-- a backed-off rule that is eligible was never checked, or a whole interval ago -/
theorem IsSound.last_le_of_isEligible (h : s.IsSound) (mem : d ∈ s.states)
    (backedOff : s.isBackedOff d = true) (eligible : s.advanced.isEligible d = true) :
    d.lastChecked ≤ 0 ∨ d.lastChecked + s.reducedInterval ≤ s.cycle + 1 := by
  have past := h.past d mem
  rcases isEligible_advanced_iff.mp eligible with begins | active | due
  · omega
  · rw [backedOff] at active
    cases active
  · unfold IsDueAfter at due
    omega

/-- A rule that is due has its turn once those before it that have not been checked since some cycle have
had theirs.  There are so few of them that none is due a second time until then. -/
theorem IsSound.asked_after_restarts_of_due (h : s.IsSound) (first : s.cursor = 0)
    (named : ∀ d ∈ s.states, d.rule.key ≠ .null) (he : s.states[j]? = some e) (near : j < s.reducedInterval)
    (due : s.IsDueAfter e 0) {cycle : Nat} (since : cycle ≤ s.cycle)
    (few : s.cycle + s.unchecked j cycle ≤ cycle + j)
    (checks : List (Rule → Except ε (List Violation)))
    (answers : ∀ check ∈ checks, Answers check)
    (quiet : ∀ t ∈ s.restarts checks, ∀ d ∈ t.states.take j, t.isBackedOff d = true)
    (enough : s.unchecked j cycle < checks.length) :
    ∃ t ∈ s.restarts checks, t.asked? = some e.rule := by
  induction checks generalizing s e with
  | nil => simp at enough
  | cons check rest ih =>
    rcases h.next_after_restart first named he (answers check List.mem_cons_self) with
      asks | ⟨d, next, other, before⟩
    · exact ⟨s, List.mem_cons_self, asks⟩
    obtain ⟨mem, eligible⟩ := before due
    -- the rule before it is due as well, and so has not been checked since that cycle
    have old : d.lastChecked ≤ cycle := by
      have := h.last_le_of_isEligible (List.mem_of_mem_take mem) (quiet s List.mem_cons_self d mem) eligible
      omega
    have less := next.unchecked_lt mem old since
    obtain ⟨e', he', same, later⟩ := next.exists_other he other
    have found : ∃ u ∈ (s.runCycle check).2.reopened.restarts rest, u.asked? = some e'.rule := by
      refine ih (h.runCycle check).reopened next.cursor (next.named named) he' ?_
        (later 0 (due.mono (Nat.zero_le 1))) ?_ ?_
        (fun check hc => answers check (List.mem_cons_of_mem _ hc))
        (fun u hu => quiet u (List.mem_cons_of_mem s hu)) ?_
      · rwa [next.interval]
      · rw [next.cycle]
        omega
      · rw [next.cycle]
        omega
      · rw [List.length_cons] at enough
        omega
    obtain ⟨u, hu, asks⟩ := found
    exact ⟨u, List.mem_cons_of_mem s hu, same ▸ asks⟩

/-- **A rule behind others that are backed off.** If there is a restart after every cycle, a rule whose
place is below the reduced interval still has its turn within as many cycles as the interval and its place,
as long as every rule before it is backed off and the checks answer. -/
theorem IsSound.asked_after_restarts (h : s.IsSound) (first : s.cursor = 0)
    (named : ∀ d ∈ s.states, d.rule.key ≠ .null) (he : s.states[j]? = some e) (near : j < s.reducedInterval)
    (waiting : Nat) (due : s.IsDueAfter e waiting) (checks : List (Rule → Except ε (List Violation)))
    (answers : ∀ check ∈ checks, Answers check)
    (quiet : ∀ t ∈ s.restarts checks, ∀ d ∈ t.states.take j, t.isBackedOff d = true)
    (enough : waiting + j < checks.length) :
    ∃ t ∈ s.restarts checks, t.asked? = some e.rule := by
  induction waiting generalizing s e checks with
  | zero =>
    have few : s.unchecked j s.cycle ≤ j := List.countP_le_length.trans (List.length_take_le j s.states)
    exact h.asked_after_restarts_of_due first named he near due le_rfl (by omega) checks answers quiet
      (by omega)
  | succ waiting ih =>
    cases checks with
    | nil => simp at enough
    | cons check rest =>
      rcases h.next_after_restart first named he (answers check List.mem_cons_self) with
        asks | ⟨d, next, other, -⟩
      · exact ⟨s, List.mem_cons_self, asks⟩
      obtain ⟨e', he', same, later⟩ := next.exists_other he other
      have found : ∃ u ∈ (s.runCycle check).2.reopened.restarts rest, u.asked? = some e'.rule := by
        refine ih (h.runCycle check).reopened next.cursor (next.named named) he' ?_ (later waiting due)
          rest (fun check hc => answers check (List.mem_cons_of_mem _ hc))
          (fun u hu => quiet u (List.mem_cons_of_mem s hu)) ?_
        · rwa [next.interval]
        · rw [List.length_cons] at enough
          omega
      obtain ⟨u, hu, asks⟩ := found
      exact ⟨u, List.mem_cons_of_mem s hu, same ▸ asks⟩

/-! ### A rule behind as many others as the interval counts -/

/-- whether no two rules that have found nothing were last checked in the same cycle -/
def IsApart (s : Schedule) : Prop :=
  ∀ d ∈ s.states, ∀ e ∈ s.states, 0 < d.zeroStreak → 0 < e.zeroStreak →
    d.lastChecked = e.lastChecked → d.rule.key = e.rule.key

theorem IsApart.start (engine : String) (zeroThreshold reducedInterval : Nat) (rules : List Rule) :
    (start engine zeroThreshold reducedInterval rules).IsApart := by
  intro d hd e _ checked
  obtain ⟨r, -, rfl⟩ := List.mem_map.mp hd
  exact absurd checked (lt_irrefl _)

/-- a check that is recorded is later than any other, and so leaves the rules apart -/
theorem IsApart.record {found : List Violation} (apart : s.IsApart)
    (past : ∀ d ∈ s.states, d.lastChecked < s.cycle) : (s.record r found).IsApart := by
  intro d hd e he streak streak' together
  obtain ⟨b, hb, rfl⟩ := List.mem_map.mp hd
  obtain ⟨c, hc, rfl⟩ := List.mem_map.mp he
  have := past b hb
  have := past c hc
  dsimp only at together streak streak' ⊢
  by_cases own : b.rule.key = r.key <;> by_cases own' : c.rule.key = r.key
  · rw [if_pos own, if_pos own']
    exact own.trans own'.symm
  · rw [if_pos own, if_neg own'] at together
    dsimp only at together
    omega
  · rw [if_neg own, if_pos own'] at together
    dsimp only at together
    omega
  · rw [if_neg own] at together streak ⊢
    rw [if_neg own'] at together streak' ⊢
    exact apart b hb c hc streak streak' together

theorem IsApart.reopened (apart : s.IsApart) : s.reopened.IsApart := by
  intro d hd e he
  obtain ⟨b, hb, rfl⟩ := List.mem_map.mp hd
  obtain ⟨c, hc, rfl⟩ := List.mem_map.mp he
  exact apart b hb c hc

theorem IsApart.runCycle (apart : s.IsApart) (h : s.IsSound) (check : Rule → Except ε (List Violation)) :
    (s.runCycle check).2.IsApart := by
  unfold Schedule.runCycle
  cases turn : s.select with
  | none => exact apart
  | some p =>
    obtain ⟨rule, t⟩ := p
    obtain ⟨-, cursor, rfl⟩ := select_eq_some turn
    dsimp only
    split
    · exact apart
    · split
      · exact apart
      · refine IsApart.record apart fun d hd => ?_
        have := h.past d hd
        push_cast
        omega

/-- a rule that is not eligible has found nothing and was checked in one of the last cycles, less than the
reduced interval counts -/
theorem IsSound.lately_of_ineligible (h : s.IsSound) (hd : d ∈ s.states)
    (ineligible : s.advanced.isEligible d = false) :
    0 < d.zeroStreak ∧ d.lastChecked ∈ Finset.Ioc (s.cycle + 1 - s.reducedInterval : Int) s.cycle := by
  have past := h.past d hd
  have threshold := h.threshold
  rw [← Bool.not_eq_true, isEligible_advanced_iff] at ineligible
  simp only [not_or, Bool.not_eq_false, isBackedOff, IsDueAfter, decide_eq_true_eq] at ineligible
  rw [Finset.mem_Ioc]
  omega

/-- not as many rules as the interval counts are ineligible all at once: two of them would have been checked
in one cycle -/
theorem IsSound.exists_eligible (h : s.IsSound) (apart : s.IsApart)
    (many : s.reducedInterval ≤ s.states.length) :
    ∃ i < s.reducedInterval, ∃ d, s.states[i]? = some d ∧ s.advanced.isEligible d = true := by
  by_contra none
  have late : ∀ i < s.reducedInterval, ∃ d, s.states[i]? = some d ∧ 0 < d.zeroStreak ∧
      d.lastChecked ∈ Finset.Ioc (s.cycle + 1 - s.reducedInterval : Int) s.cycle := by
    intro i hi
    have turn : s.states[i]? = some s.states[i] := List.getElem?_eq_getElem (by omega)
    refine ⟨_, turn, h.lately_of_ineligible (List.mem_of_getElem? turn) ?_⟩
    by_contra eligible
    exact none ⟨i, hi, _, turn, by simpa using eligible⟩
  -- more of the first rules than cycles in which they were checked
  have fewer : (Finset.Ioc (s.cycle + 1 - s.reducedInterval : Int) s.cycle).card <
      (Finset.range s.reducedInterval).card := by
    have := h.interval
    rw [Finset.card_range, Int.card_Ioc]
    omega
  obtain ⟨i, hi, i', hi', other, same⟩ := Finset.exists_ne_map_eq_of_card_lt_of_maps_to
    (f := fun i => ((s.states[i]?).map (·.lastChecked)).getD 0) fewer fun i hi => by
      obtain ⟨d, turn, -, within⟩ := late i (Finset.mem_range.mp hi)
      simpa only [turn, Option.map_some, Option.getD_some, Finset.mem_coe] using within
  obtain ⟨d, turn, streak, -⟩ := late i (Finset.mem_range.mp hi)
  obtain ⟨d', turn', streak', -⟩ := late i' (Finset.mem_range.mp hi')
  simp only [turn, turn', Option.map_some, Option.getD_some] at same
  have key := apart d (List.mem_of_getElem? turn) d' (List.mem_of_getElem? turn') streak streak' same
  refine other ((List.getElem?_inj ?_ h.distinct).mp ?_)
  · rw [List.length_map]
    exact (List.getElem?_eq_some_iff.mp turn).1
  · rw [List.getElem?_map, List.getElem?_map, turn, turn']
    exact congrArg some key

/-- a cycle after a restart asks for one of the first rules, as many as the reduced interval counts -/
theorem IsSound.exists_place_of_asked (h : s.IsSound) (apart : s.IsApart) (first : s.cursor = 0)
    (asks : s.asked? = some r) : ∃ j < s.reducedInterval, s.rules[j]? = some r := by
  rw [asked?_eq_upcoming?, upcoming?, Option.filter_eq_some_iff] at asks
  obtain ⟨⟨rule, t⟩, turn, rfl⟩ := Option.map_eq_some_iff.mp asks.1
  obtain ⟨k, e, takes, rfl, -⟩ := exists_of_select_eq_some turn
  have turns := turns_of_cursor_eq_zero first
  have taken : s.states[k]? = some e := turns ▸ takes.turn
  refine ⟨k, ?_, by rw [rules, List.getElem?_map, taken]; rfl⟩
  by_contra far
  -- otherwise as many rules as the interval counts have been passed over
  have within : k < s.states.length := (List.getElem?_eq_some_iff.mp taken).1
  obtain ⟨i, hi, d, turn', eligible⟩ := h.exists_eligible apart (by omega)
  have ineligible := takes.first i (by omega) d (by rw [turns, turn'])
  rw [eligible] at ineligible
  cases ineligible

/-- **A rule behind as many others as the interval counts.** If there is a restart after every cycle, no
rule is ever asked for but the first ones, as many as the reduced interval counts, whatever the checks
answer. -/
theorem IsSound.exists_place_of_restarts (h : s.IsSound) (apart : s.IsApart) (first : s.cursor = 0)
    (checks : List (Rule → Except ε (List Violation))) (ht : t ∈ s.restarts checks)
    (asks : t.asked? = some r) : ∃ j < s.reducedInterval, s.rules[j]? = some r := by
  induction checks generalizing s with
  | nil => cases ht
  | cons check rest ih =>
    rcases List.mem_cons.mp ht with rfl | later
    · exact h.exists_place_of_asked apart first asks
    · obtain ⟨j, near, place⟩ :=
        ih (h.runCycle check).reopened (apart.runCycle h check).reopened rfl later
      have alike := (isAlike_runCycle (s := s) check).trans isAlike_reopened
      exact ⟨j, alike.interval ▸ near, alike.rules ▸ place⟩

end Schedule

end LintLedger
