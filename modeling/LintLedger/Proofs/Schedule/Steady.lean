import LintLedger.Failure
import LintLedger.Proofs.Schedule.Fairness
import LintLedger.Proofs.Schedule.Restart
import Mathlib

/-!
# Checks that find the same every time

Where each check of a rule finds what the last one found, a schedule knows that of every rule that it has
checked, and nothing of the others (`Knows.runCycle`).  A rule that has not been checked is not backed off
yet, so that a schedule passes its rules to their checks one after the other in its first round
(`StandsAt.runCycle`).  From the end of that round on everything is known, in the order of the rules
(`known_iterate_turned`).
-/

namespace LintLedger.Schedule

variable {s : Schedule} {r : Rule} {e : RuleState} {find : Rule → List Violation} {rules : List Rule}
  {k : Nat} {ε : Type}

/-- a cycle that checks a rule answers with all that is known afterwards -/
theorem runCycle_fst {check : Rule → Except ε (List Violation)} {found : List Violation}
    (next : s.upcoming? = some r) (answer : check r = .ok found) :
    (s.runCycle check).1 = .ok (some r, (s.runCycle check).2.known) := by
  obtain ⟨t, -, -, checked⟩ := runCycle_of_upcoming_eq_some check next
  rw [checked found answer]

/-- a schedule of rules that all have a name has a rule to check -/
theorem exists_upcoming (some : s.states ≠ []) (named : ∀ e ∈ s.states, e.rule.key ≠ .null) :
    ∃ r, s.upcoming? = .some r := by
  obtain ⟨⟨r, t⟩, turn⟩ := exists_select_eq_some some
  obtain ⟨⟨e, he, rfl⟩, -⟩ := select_eq_some turn
  exact ⟨e.rule, by simp [upcoming?, turn, named e he]⟩

/-! ### What is known -/

/-- whether a schedule knows of some rules what is to be found of them, and nothing of its other rules -/
structure Knows (s : Schedule) (find : Rule → List Violation) (rules : List Rule) : Prop where
  found : ∀ e ∈ s.states, e.rule ∈ rules → e.found = find e.rule
  nothing : ∀ e ∈ s.states, e.rule ∉ rules → e.found = []

theorem Knows.congr {others : List Rule} (h : s.Knows find rules) (same : ∀ r, r ∈ others ↔ r ∈ rules) :
    s.Knows find others :=
  ⟨fun e he own => h.found e he ((same _).mp own), fun e he other => h.nothing e he (mt (same _).mpr other)⟩

/-- a schedule of which nothing is known -/
theorem knows_nil (h : s.known = []) : s.Knows find [] := by
  refine ⟨fun _ _ => nofun, fun e he _ => ?_⟩
  exact List.flatMap_eq_nil_iff.mp h e he

/-- once all rules are known, so is everything -/
theorem Knows.known (h : s.Knows find rules) (all : ∀ r ∈ s.rules, r ∈ rules) :
    s.known = s.rules.flatMap find := by
  unfold Schedule.known Schedule.rules
  rw [List.flatMap_map]
  exact List.flatMap_congr fun e he => h.found e he (all _ (List.mem_map_of_mem he))

/-- what is known of some rules of a schedule is all that is known -/
theorem Knows.mem_known (h : s.Knows find rules) (own : ∀ r ∈ rules, r ∈ s.rules) {v : Violation} :
    v ∈ s.known ↔ ∃ r ∈ rules, v ∈ find r := by
  rw [Schedule.mem_known]
  constructor
  · rintro ⟨e, he, hv⟩
    by_cases known : e.rule ∈ rules
    · exact ⟨e.rule, known, h.found e he known ▸ hv⟩
    · rw [h.nothing e he known] at hv
      cases hv
  · rintro ⟨r, hr, hv⟩
    obtain ⟨e, he, rfl⟩ := List.mem_map.mp (own r hr)
    exact ⟨e, he, (h.found e he hr).symm ▸ hv⟩

/-- the rule that a cycle checks, if it checks one and the check ends well -/
def checked? (s : Schedule) (check : Rule → Except ε (List Violation)) : Option Rule :=
  s.upcoming?.filter fun r => (check r).isOk

theorem mem_rules_of_checked? {check : Rule → Except ε (List Violation)} (h : s.checked? check = some r) :
    r ∈ s.rules := by
  obtain ⟨e, he, rfl⟩ := exists_of_upcoming_eq_some (Option.filter_eq_some_iff.mp h).1
  exact List.mem_map_of_mem he

/-- a cycle comes to know what the check of its rule finds -/
theorem Knows.runCycle (h : s.Knows find rules) (sound : s.IsSound)
    {check : Rule → Except ε (List Violation)}
    (steady : ∀ r found, s.upcoming? = some r → check r = .ok found → found = find r) :
    (s.runCycle check).2.Knows find ((s.checked? check).toList ++ rules) := by
  have kept : ∀ {t : Schedule}, t.states = s.states → t.Knows find rules := fun same =>
    ⟨fun e he => h.found e (same ▸ he), fun e he => h.nothing e (same ▸ he)⟩
  unfold checked?
  cases next : s.upcoming? with
  | none => exact kept (runCycle_of_upcoming_eq_none check next).2
  | some r =>
    obtain ⟨t, same, failed, checked⟩ := runCycle_of_upcoming_eq_some check next
    cases answer : check r with
    | error f =>
      have unchecked : (some r).filter (fun r => (check r).isOk) = none := by
        rw [Option.filter_some, answer]
        rfl
      rw [unchecked, failed f answer]
      exact kept same
    | ok found =>
      obtain rfl := steady r found next answer
      have own : (some r).filter (fun r => (check r).isOk) = some r := by
        rw [Option.filter_some, answer]
        rfl
      rw [own, checked _ answer]
      obtain ⟨d, hd, rfl⟩ := exists_of_upcoming_eq_some next
      -- in a sound schedule a rule of the same key is the rule that is checked
      have states : ∀ e ∈ (t.record d.rule (find d.rule)).states,
          e.rule = d.rule ∧ e.found = find d.rule ∨ e ∈ s.states ∧ e.rule ≠ d.rule := by
        intro e he
        obtain ⟨c, hc, rfl⟩ := List.mem_map.mp he
        have hc : c ∈ s.states := same ▸ hc
        split
        · rename_i key
          obtain rfl := sound.eq_of_key hc hd key
          exact .inl ⟨rfl, rfl⟩
        · rename_i key
          exact .inr ⟨hc, fun equal => key (congrArg Rule.key equal)⟩
      refine ⟨fun e he known => ?_, fun e he unknown => ?_⟩
      · rcases states e he with ⟨rule, found⟩ | ⟨old, other⟩
        · rw [found, rule]
        · exact h.found e old ((List.mem_cons.mp known).resolve_left other)
      · rcases states e he with ⟨rule, -⟩ | ⟨old, -⟩
        · exact absurd (rule ▸ List.mem_cons_self) unknown
        · exact h.nothing e old fun known => unknown (List.mem_cons_of_mem _ known)

/-- a cycle that ends well, over rules that all have a name, answers with all that is known afterwards; its
last rule is the one that it has checked, if there are rules at all -/
theorem runCycle_eq_ok {check : Rule → Except ε (List Violation)} {p : Option Rule × List Violation}
    (named : ∀ e ∈ s.states, e.rule.key ≠ .null) (h : (s.runCycle check).1 = .ok p) :
    p.2 = (s.runCycle check).2.known ∧
      (s.states ≠ [] → s.checked? check = (s.runCycle check).2.lastRule) := by
  by_cases none : s.states = []
  · have turn : s.select = .none := by
      unfold Schedule.select
      rw [none]
      rfl
    have ran : s.runCycle check = (.ok (.none, []), s) := by
      unfold Schedule.runCycle
      rw [turn]
    rw [ran] at h ⊢
    cases h
    refine ⟨?_, fun some => absurd none some⟩
    unfold Schedule.known
    rw [none]
    rfl
  · obtain ⟨r, next⟩ := exists_upcoming none named
    obtain ⟨t, -, failed, checked⟩ := runCycle_of_upcoming_eq_some check next
    cases answer : check r with
    | error f =>
      rw [failed f answer] at h
      cases h
    | ok found =>
      rw [checked found answer] at h ⊢
      cases h
      refine ⟨rfl, fun _ => ?_⟩
      unfold checked?
      rw [next, Option.filter_some, answer]
      rfl

/-! ### The first round -/

/-- whether the cursor stands at a rule from which on none has found nothing in its last checks -/
structure StandsAt (s : Schedule) (k : Nat) : Prop where
  cursor : s.cursor = k
  fresh : ∀ j e, k ≤ j → s.states[j]? = some e → e.zeroStreak = 0

theorem standsAt_start (engine : String) (zeroThreshold reducedInterval : Nat) (rules : List Rule) :
    (start engine zeroThreshold reducedInterval rules).StandsAt 0 := by
  refine ⟨rfl, fun j e _ he => ?_⟩
  obtain ⟨r, -, rfl⟩ := List.mem_map.mp (List.mem_of_getElem? he)
  rfl

/-- the next cycle checks the rule at the cursor, if that rule is not backed off -/
theorem StandsAt.runCycle (h : s.StandsAt k) (sound : s.IsSound) (he : s.states[k]? = some e)
    (named : e.rule.key ≠ .null) (check : Rule → Except ε (List Violation)) :
    s.upcoming? = some e.rule ∧ (k + 1 < s.states.length → (s.runCycle check).2.StandsAt (k + 1)) := by
  have within : k < s.states.length := (List.getElem?_eq_some_iff.mp he).1
  have some : s.states ≠ [] := List.length_pos_iff.mp (by omega)
  obtain ⟨i, d, takes, asks, -, cursor, -, -, others⟩ := exists_of_runCycle some check
  have first : s.turns[0]? = .some e := by
    rw [getElem?_turns (sound.ranged some) (by omega), h.cursor, Nat.add_zero, Nat.mod_eq_of_lt within, he]
  have eligible : s.advanced.isEligible e = true := by
    have busy : s.advanced.isBackedOff e = false := by
      have threshold := sound.threshold
      have fresh := h.fresh k e (le_refl k) he
      refine decide_eq_false ?_
      change ¬ (s.zeroThreshold : Int) ≤ e.zeroStreak
      omega
    simp [isEligible, busy]
  -- its turn is the first, and nothing is passed over
  obtain rfl : i = 0 := by
    by_contra later
    have passed := takes.first 0 (by omega) e first
    rw [eligible] at passed
    cases passed
  obtain rfl : e = d := Option.some.inj (first.symm.trans takes.turn)
  refine ⟨by rw [← asked?_eq_upcoming?, asks named], fun more => ⟨?_, fun j c le hc => ?_⟩⟩
  · rw [cursor, h.cursor, Nat.add_zero, Nat.mod_eq_of_lt more]
  · -- the rules behind are others, and stay as they were
    cases old : s.states[j]? with
    | none =>
      have length : (s.runCycle check).2.states.length = s.states.length := by
        obtain ⟨-, -, -, -, -, -, -, length, -⟩ := exists_of_runCycle some check
        exact length
      have beyond := List.getElem?_eq_none_iff.mp old
      have range := (List.getElem?_eq_some_iff.mp hc).1
      omega
    | some d =>
      have other : d.rule.key ≠ e.rule.key := by
        intro same
        obtain rfl := sound.eq_of_key (List.mem_of_getElem? old) (List.mem_of_getElem? he) same
        have place : k = j :=
          (List.getElem?_inj within (List.Nodup.of_map _ sound.distinct)).mp (he.trans old.symm)
        omega
      obtain rfl : d = c := Option.some.inj ((others j d old other).symm.trans hc)
      exact h.fresh j d (by omega) old

/-! ### Round after round -/

/-- a schedule after a cycle in which each check ends well -/
def turned (find : Rule → List Violation) (s : Schedule) : Schedule :=
  (s.runCycle fun r => (.ok (find r) : Except Failure (List Violation))).2

theorem isAlike_turned : s.IsAlike (s.turned find) := isAlike_runCycle _

theorem isAlike_iterate_turned (find : Rule → List Violation) (k : Nat) :
    s.IsAlike ((turned find)^[k] s) := by
  induction k with
  | zero => exact ⟨rfl, rfl, rfl, rfl⟩
  | succ k ih =>
    rw [Function.iterate_succ_apply']
    exact ih.trans isAlike_turned

theorem IsSound.turned (h : s.IsSound) : (s.turned find).IsSound := h.runCycle _

theorem Knows.turned (h : s.Knows find rules) (sound : s.IsSound) :
    (s.turned find).Knows find (s.upcoming?.toList ++ rules) := by
  have known : (s.turned find).Knows find
      ((s.checked? fun r => (.ok (find r) : Except Failure (List Violation))).toList ++ rules) :=
    h.runCycle sound fun r found _ answer => (Except.ok.inj answer).symm
  have every : s.checked? (fun r => (.ok (find r) : Except Failure (List Violation))) = s.upcoming? := by
    unfold checked?
    cases s.upcoming? <;> rfl
  rwa [every] at known

/-- in its first round a schedule comes to know one rule after the other -/
theorem first_round (find : Rule → List Violation) (fresh : s.StandsAt 0) (unknown : s.known = [])
    (sound : s.IsSound) (named : ∀ r ∈ s.rules, r.key ≠ .null) (le : k ≤ s.rules.length) :
    ((turned find)^[k] s).IsSound ∧ (k < s.rules.length → ((turned find)^[k] s).StandsAt k) ∧
      ((turned find)^[k] s).Knows find (s.rules.take k) := by
  induction k with
  | zero => exact ⟨sound, fun _ => fresh, knows_nil unknown⟩
  | succ k ih =>
    obtain ⟨sound', stands, knows⟩ := ih (by omega)
    have alike : s.IsAlike ((turned find)^[k] s) := isAlike_iterate_turned find k
    rw [Function.iterate_succ_apply']
    generalize (turned find)^[k] s = t at *
    have length : t.states.length = s.rules.length := by
      rw [← alike.rules]
      exact (List.length_map _).symm
    obtain ⟨e, he⟩ : ∃ e, t.states[k]? = some e := ⟨_, List.getElem?_eq_getElem (by omega)⟩
    have rule : s.rules[k]? = some e.rule := by
      rw [← alike.rules]
      unfold rules
      rw [List.getElem?_map, he]
      rfl
    obtain ⟨next, further⟩ := (stands (by omega)).runCycle sound' he
      (named _ (List.mem_of_getElem? rule)) fun r => (.ok (find r) : Except Failure (List Violation))
    refine ⟨sound'.turned, fun more => further (by omega), ?_⟩
    refine (knows.turned sound').congr fun r => ?_
    rw [next, List.take_add_one, rule, List.mem_append, List.mem_append, or_comm]

/-- from the end of its first round on a schedule knows all of its rules -/
theorem known_iterate_turned (find : Rule → List Violation) (fresh : s.StandsAt 0) (unknown : s.known = [])
    (sound : s.IsSound) (named : ∀ r ∈ s.rules, r.key ≠ .null) (enough : s.rules.length ≤ k) :
    ((turned find)^[k] s).known = s.rules.flatMap find := by
  have knows : ((turned find)^[k] s).IsSound ∧ ((turned find)^[k] s).Knows find s.rules := by
    induction k, enough using Nat.le_induction with
    | base =>
      obtain ⟨sound', -, knows⟩ := first_round find fresh unknown sound named le_rfl
      rw [List.take_length] at knows
      exact ⟨sound', knows⟩
    | succ k _ ih =>
      obtain ⟨sound', knows⟩ := ih
      have alike : s.IsAlike ((turned find)^[k] s) := isAlike_iterate_turned find k
      rw [Function.iterate_succ_apply']
      refine ⟨sound'.turned, (knows.turned sound').congr fun r => ?_⟩
      rw [List.mem_append, Option.mem_toList]
      refine ⟨.inr, fun own => own.elim (fun next => ?_) id⟩
      obtain ⟨e, he, rfl⟩ := exists_of_upcoming_eq_some next
      exact alike.rules ▸ List.mem_map_of_mem he
  have same := (isAlike_iterate_turned (s := s) find k).rules
  rw [knows.2.known fun r hr => same ▸ hr, same]

/-! ### From the beginning -/

section Start

variable {engine : String} {zeroThreshold reducedInterval : Nat}

theorem rules_start_eq_distinct :
    (start engine zeroThreshold reducedInterval rules).rules = Rule.distinct rules := by
  unfold Schedule.rules start
  rw [List.map_map]
  exact List.map_id' _

theorem rules_start (apart : (rules.map Rule.key).Nodup) :
    (start engine zeroThreshold reducedInterval rules).rules = rules :=
  rules_start_eq_distinct.trans (distinctBy_eq_self apart)

theorem mem_of_mem_rules_start (h : r ∈ (start engine zeroThreshold reducedInterval rules).rules) :
    r ∈ rules := by
  obtain ⟨e, he, rfl⟩ := List.mem_map.mp h
  obtain ⟨r, hr, rfl⟩ := List.mem_map.mp he
  exact (distinctBy_sublist Rule.key rules).subset hr

theorem known_start : (start engine zeroThreshold reducedInterval rules).known = [] := by
  refine List.eq_nil_iff_forall_not_mem.mpr fun v hv => ?_
  obtain ⟨e, he, hv⟩ := mem_known.mp hv
  obtain ⟨r, -, rfl⟩ := List.mem_map.mp he
  cases hv

/-- a schedule of rules that all have a name and of which no two are the same answers, from the end of its
first round on, with what is to be found of all of them -/
theorem runCycle_iterate_turned (threshold : 0 < zeroThreshold) (interval : 0 < reducedInterval)
    (find : Rule → List Violation) (some : rules ≠ []) (apart : (rules.map Rule.key).Nodup)
    (named : ∀ r ∈ rules, r.key ≠ .null) (enough : rules.length ≤ k + 1) :
    ∃ r, (((turned find)^[k] (start engine zeroThreshold reducedInterval rules)).runCycle
        fun r => (.ok (find r) : Except Failure (List Violation))).1 =
      .ok (.some r, rules.flatMap find) := by
  have own : (start engine zeroThreshold reducedInterval rules).rules = rules := rules_start apart
  have alike := isAlike_iterate_turned (s := start engine zeroThreshold reducedInterval rules) find k
  have known := known_iterate_turned (k := k + 1) find (standsAt_start engine _ _ rules) known_start
    (.start engine rules threshold interval) (own.symm ▸ named) (own.symm ▸ enough)
  rw [Function.iterate_succ_apply', own] at known
  have rulesOf := alike.rules.trans own
  obtain ⟨r, next⟩ := exists_upcoming (s := (turned find)^[k] _)
    (fun none => some (by rw [← rulesOf, Schedule.rules, none]; rfl))
    fun e he => named _ (rulesOf ▸ List.mem_map_of_mem he)
  exact ⟨r, (runCycle_fst next rfl).trans (by rw [← known]; rfl)⟩

end Start

end LintLedger.Schedule
