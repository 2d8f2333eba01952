import LintLedger.Proofs.Schedule.Turns
import Mathlib

/-!
# Every rule has its turn

While a schedule stays in one process, no rule waits for ever.  A rule that is not asked for becomes due
once the reduced interval has gone by since its last check, and from then on each cycle that asks for
another rule takes a turn before its own and so brings the cursor nearer to it (`IsSound.next`).  There
are only as many turns as rules (`IsSound.mem_asked_of_due`), so that a rule is asked for within the
reduced interval and one round (`every_rule_asked`).  Nothing is assumed of what the checks answer, or
that they answer at all.
-/

namespace LintLedger.Schedule

variable {s t : Schedule} {r : Rule} {e : RuleState} {ε : Type}

/-! ### What a cycle asks for -/

/-- the rule that a cycle passes to its check: the one that a check throws which throws whatever it is
given -/
def asked? (s : Schedule) : Option Rule :=
  match (s.runCycle fun r => (.error r : Except Rule (List Violation))).1 with
  | .error r => some r
  | .ok _ => none

theorem asked?_eq_upcoming? (s : Schedule) : s.asked? = s.upcoming? := by
  unfold asked?
  cases turn : s.upcoming? with
  | none => rw [(runCycle_of_upcoming_eq_none _ turn).1]
  | some r =>
    obtain ⟨t, -, failed, -⟩ := runCycle_of_upcoming_eq_some
      (fun r => (.error r : Except Rule (List Violation))) turn
    rw [failed r rfl]

/-- the rules that cycles one after another pass to their checks -/
def asked (s : Schedule) : List (Rule → Except ε (List Violation)) → List Rule
  | [] => []
  | check :: rest => s.asked?.toList ++ (s.runCycle check).2.asked rest

/-- a cycle takes its turn, and leaves every rule as it was that it does not ask for -/
theorem exists_of_runCycle (some : s.states ≠ []) (check : Rule → Except ε (List Violation)) :
    ∃ k e, s.Takes k e ∧ (e.rule.key ≠ .null → s.asked? = .some e.rule) ∧
      (s.runCycle check).2.cycle = s.cycle + 1 ∧
      (s.runCycle check).2.cursor = (s.cursor + k + 1) % s.states.length ∧
      (s.runCycle check).2.reducedInterval = s.reducedInterval ∧
      (s.runCycle check).2.states.length = s.states.length ∧
      ∀ (j : Nat) (d : RuleState), s.states[j]? = .some d → d.rule.key ≠ e.rule.key →
        (s.runCycle check).2.states[j]? = .some d := by
  obtain ⟨⟨rule, t⟩, turn⟩ := exists_select_eq_some some
  obtain ⟨k, e, takes, rfl, rfl⟩ := exists_of_select_eq_some turn
  refine ⟨k, e, takes, fun named => ?_, ?_⟩
  · rw [asked?_eq_upcoming?, upcoming?, turn]
    simp [named]
  · unfold runCycle
    rw [turn]
    dsimp only
    split
    · exact ⟨rfl, rfl, rfl, rfl, fun j d hd _ => hd⟩
    · cases check e.rule with
      | error f => exact ⟨rfl, rfl, rfl, rfl, fun j d hd _ => hd⟩
      | ok found =>
        refine ⟨rfl, rfl, rfl, ?_, fun j d hd other => ?_⟩
        · simp [record, modify]
        · simp [record, modify, hd, other]

/-! ### A rule that waits -/

/-- whether enough cycles will have gone by since the last check of a rule once some more have -/
def IsDueAfter (s : Schedule) (e : RuleState) (waiting : Nat) : Prop :=
  (s.reducedInterval : Int) ≤ s.cycle + 1 + waiting - e.lastChecked

theorem isEligible_of_isDueAfter (h : s.IsDueAfter e 0) : s.advanced.isEligible e = true := by
  unfold IsDueAfter at h
  have due : (s.reducedInterval : Int) ≤ (s.cycle + 1 : Nat) - e.lastChecked := by
    push_cast at h ⊢
    omega
  unfold isEligible advanced
  simp only [due, decide_true, Bool.or_true]

/-- A cycle asks for a rule, or leaves it waiting.  If the rule is due, the cursor is then nearer to it. -/
theorem IsSound.next (h : s.IsSound) {j d : Nat} (he : s.states[j]? = some e) (named : e.rule.key ≠ .null)
    (within : d < s.states.length) (ahead : (s.cursor + d) % s.states.length = j)
    (check : Rule → Except ε (List Violation)) :
    s.asked? = some e.rule ∨ (s.runCycle check).2.states[j]? = some e ∧
      (s.IsDueAfter e 0 → ∃ d' < d, ((s.runCycle check).2.cursor + d') % s.states.length = j) := by
  have some : s.states ≠ [] := by
    rintro none
    simp [none] at he
  obtain ⟨k, e', takes, asks, -, cursor, -, -, others⟩ := exists_of_runCycle some check
  have mem' : e' ∈ s.states := mem_turns.mp (List.mem_of_getElem? takes.turn)
  by_cases same : e.rule.key = e'.rule.key
  · obtain rfl : e = e' := h.eq_of_key (List.mem_of_getElem? he) mem' same
    exact .inl (asks named)
  refine .inr ⟨others j e he same, fun due => ?_⟩
  have eligible := isEligible_of_isDueAfter due
  have turn : s.turns[d]? = .some e := by rw [getElem?_turns (h.ranged some) within, ahead, he]
  -- the turn that is taken is not behind that of the rule, which is eligible, and not its own
  have notBehind : ¬ d < k := by
    intro behind
    have ineligible := takes.first d behind e turn
    rw [eligible] at ineligible
    cases ineligible
  have notOwn : k ≠ d := by
    rintro rfl
    rw [takes.turn] at turn
    exact same (congrArg (·.rule.key) (Option.some.inj turn).symm)
  refine ⟨d - k - 1, by omega, ?_⟩
  rw [cursor, Nat.mod_add_mod, show s.cursor + k + 1 + (d - k - 1) = s.cursor + d by omega, ahead]

/-- a rule that is due has its turn within as many cycles as there are turns up to its own -/
theorem IsSound.mem_asked_of_due (h : s.IsSound) {j d : Nat} (he : s.states[j]? = some e)
    (named : e.rule.key ≠ .null) (within : d < s.states.length)
    (ahead : (s.cursor + d) % s.states.length = j) (due : s.IsDueAfter e 0)
    (checks : List (Rule → Except ε (List Violation))) (enough : d < checks.length) :
    e.rule ∈ s.asked checks := by
  induction checks generalizing s d with
  | nil => simp at enough
  | cons check rest ih =>
    unfold asked
    rcases h.next he named within ahead check with asks | ⟨waits, nearer⟩
    · simp [asks]
    · obtain ⟨d', less, ahead'⟩ := nearer due
      have some : s.states ≠ [] := by
        rintro none
        simp [none] at he
      obtain ⟨-, -, -, -, cycle, -, interval, length, -⟩ := exists_of_runCycle some check
      refine List.mem_append_right _ (ih (h.runCycle check) (d := d') waits ?_ ?_ ?_ ?_)
      · omega
      · rw [length, ahead']
      · unfold IsDueAfter at due ⊢
        rw [cycle, interval]
        push_cast
        omega
      · rw [List.length_cons] at enough
        omega

/-- a rule that will be due after some cycles has its turn within these and one round -/
theorem IsSound.mem_asked (h : s.IsSound) {j : Nat} (he : s.states[j]? = some e)
    (named : e.rule.key ≠ .null) (waiting : Nat) (due : s.IsDueAfter e waiting)
    (checks : List (Rule → Except ε (List Violation)))
    (enough : waiting + s.states.length ≤ checks.length) : e.rule ∈ s.asked checks := by
  have place : j < s.states.length := (List.getElem?_eq_some_iff.mp he).1
  have some : s.states ≠ [] := List.length_pos_iff.mp (by omega)
  obtain ⟨d, within, ahead⟩ := exists_turn (h.ranged some) place
  induction waiting generalizing s checks d with
  | zero => exact h.mem_asked_of_due he named within ahead due checks (by omega)
  | succ waiting ih =>
    cases checks with
    | nil =>
      rw [List.length_nil] at enough
      omega
    | cons check rest =>
      unfold asked
      rcases h.next he named within ahead check with asks | ⟨waits, -⟩
      · simp [asks]
      · obtain ⟨-, -, -, -, cycle, -, interval, length, -⟩ := exists_of_runCycle some check
        have sound := h.runCycle check
        have place' : j < (s.runCycle check).2.states.length := by rwa [length]
        have some' : (s.runCycle check).2.states ≠ [] := List.length_pos_iff.mp (by omega)
        obtain ⟨d', within', ahead'⟩ := exists_turn (sound.ranged some') place'
        refine List.mem_append_right _ (ih sound waits ?_ rest ?_ place' some' d' within' ahead')
        · unfold IsDueAfter at due ⊢
          rw [cycle, interval]
          push_cast at due ⊢
          omega
        · rw [List.length_cons] at enough
          omega

/-- **Every rule has its turn.** In whatever way a schedule has come about, as many cycles one after
another as the reduced interval and a round less one pass every rule with a name to a check, whatever
the checks answer and whether or not they fail. -/
theorem every_rule_asked (h : Reached s) (checks : List (Rule → Except ε (List Violation)))
    (enough : s.reducedInterval + s.rules.length - 1 ≤ checks.length) :
    ∀ r ∈ s.rules, r.key ≠ .null → r ∈ s.asked checks := by
  intro r hr named
  have sound := h.isSound
  obtain ⟨e, he, rfl⟩ := List.mem_map.mp hr
  obtain ⟨j, hj⟩ := List.getElem?_of_mem he
  have positive := sound.interval
  have length : s.rules.length = s.states.length := List.length_map _
  refine sound.mem_asked hj named (s.reducedInterval - 1) ?_ checks (by omega)
  have past := sound.past e he
  unfold IsDueAfter
  omega

/-- a schedule that has taken up a rule that is backed off and was checked in the ninth cycle -/
def resumed : Schedule :=
  (start "eslint" 1 3 (["quiet", "busy", "broken"].map Rule.ofName)).restore
    [⟨.text "quiet", "eslint", 1, 9⟩]

theorem resumed_reached : Reached resumed :=
  .restore (.start _ _ (by decide) (by decide)) _

/-- a check of the rules of this schedule: one finds something, one nothing, and one fails -/
def mixed (r : Rule) : Except Unit (List Violation) :=
  if r.key = .text "busy" then .ok [default]
  else if r.key = .text "quiet" then .ok []
  else .error ()

theorem every_rule_asked_resumed :
    resumed.reducedInterval + resumed.rules.length - 1 = 5 ∧
      (resumed.asked [mixed, mixed, mixed, mixed, mixed]).map (·.key) =
        [.text "busy", .text "broken", .text "quiet", .text "busy", .text "broken"] ∧
      Rule.ofName "quiet" ∈ resumed.asked [mixed, mixed, mixed, mixed, mixed] := by
  refine ⟨by decide, by decide +kernel, ?_⟩
  refine every_rule_asked resumed_reached _ (by decide) _ ?_ (by decide)
  change _ ∈ [Rule.ofName "quiet", Rule.ofName "busy", Rule.ofName "broken"]
  exact List.mem_cons_self

end LintLedger.Schedule
