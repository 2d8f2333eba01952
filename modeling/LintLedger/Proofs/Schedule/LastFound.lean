import LintLedger.Proofs.Schedule.Restart
import Mathlib

/-!
# What the last checks found

A schedule recalls of each of its rules what the last check of it found that ended well
(`Recalls.runCycle`).  All that is known after a check is therefore what that check found and, besides, what
the last checks of the other rules found (`Recalls.length_known`).
-/

namespace LintLedger.Schedule

variable {s : Schedule} {r q : Rule} {found : List Violation} {rules : List Rule}
  {checks : List (Rule × List Violation)} {ε : Type} {check : Rule → Except ε (List Violation)}

/-! ### The answer of a cycle -/

/-- the rule that a cycle checks and what the check finds, if it checks one and the check ends well -/
def answer? (s : Schedule) (check : Rule → Except ε (List Violation)) : Option (Rule × List Violation) :=
  s.upcoming?.bind fun r => (check r).toOption.map fun found => (r, found)

theorem answer?_eq_some_iff :
    s.answer? check = some (r, found) ↔ s.upcoming? = some r ∧ check r = .ok found := by
  unfold answer?
  rw [Option.bind_eq_some_iff]
  constructor
  · rintro ⟨q, next, h⟩
    cases answer : check q with
    | error e =>
      rw [answer] at h
      cases h
    | ok found =>
      rw [answer] at h
      cases h
      exact ⟨next, answer⟩
  · rintro ⟨next, answer⟩
    exact ⟨r, next, by rw [answer]; rfl⟩

/-- a cycle with an answer records it, and answers with all that is known then -/
theorem runCycle_of_answer?_eq_some (h : s.answer? check = some (r, found)) :
    ∃ t : Schedule, t.states = s.states ∧
      s.runCycle check = (.ok (some r, (t.record r found).known), t.record r found) := by
  obtain ⟨next, answer⟩ := answer?_eq_some_iff.mp h
  obtain ⟨t, same, -, checked⟩ := runCycle_of_upcoming_eq_some check next
  exact ⟨t, same, checked found answer⟩

/-- a cycle without an answer keeps what is known; if it ends well, no rule has had its turn, and it finds
nothing -/
theorem runCycle_of_answer?_eq_none (h : s.answer? check = none) :
    (s.runCycle check).2.states = s.states ∧ ∀ p, (s.runCycle check).1 = .ok p → p.2 = [] := by
  cases next : s.upcoming? with
  | none =>
    obtain ⟨answer, same⟩ := runCycle_of_upcoming_eq_none check next
    refine ⟨same, fun p ended => ?_⟩
    cases answer.symm.trans ended
    rfl
  | some r =>
    obtain ⟨t, same, failed, -⟩ := runCycle_of_upcoming_eq_some check next
    cases answer : check r with
    | error e =>
      rw [failed e answer]
      exact ⟨same, nofun⟩
    | ok found =>
      rw [answer?_eq_some_iff.mpr ⟨next, answer⟩] at h
      cases h

/-! ### The last answers -/

/-- what the last of some checks of a rule found, given the checks with the latest first -/
def lastFound (checks : List (Rule × List Violation)) (r : Rule) : List Violation :=
  ((checks.find? fun c => c.1.key = r.key).map Prod.snd).getD []

theorem lastFound_of_key_eq (same : q.key = r.key) : lastFound ((q, found) :: checks) r = found := by
  simp [lastFound, same]

theorem lastFound_of_key_ne (other : q.key ≠ r.key) :
    lastFound ((q, found) :: checks) r = lastFound checks r := by
  simp [lastFound, other]

/-- whether a schedule knows of each of its rules what the last of some checks found -/
def Recalls (s : Schedule) (checks : List (Rule × List Violation)) : Prop :=
  ∀ e ∈ s.states, e.found = lastFound checks e.rule

/-- a schedule of which nothing is known recalls no check -/
theorem recalls_nil (h : s.known = []) : s.Recalls [] := fun e he => List.flatMap_eq_nil_iff.mp h e he

/-- a cycle adds its answer to what is recalled -/
theorem Recalls.runCycle (h : s.Recalls checks) (check : Rule → Except ε (List Violation)) :
    (s.runCycle check).2.Recalls ((s.answer? check).toList ++ checks) := by
  cases answer : s.answer? check with
  | none =>
    obtain ⟨same, -⟩ := runCycle_of_answer?_eq_none answer
    intro e he
    exact h e (same ▸ he)
  | some p =>
    obtain ⟨r, found⟩ := p
    obtain ⟨t, same, ran⟩ := runCycle_of_answer?_eq_some answer
    rw [ran]
    intro e he
    obtain ⟨d, hd, rfl⟩ := List.mem_map.mp he
    change _ = lastFound ((r, found) :: checks) _
    split
    · rename_i own
      exact (lastFound_of_key_eq own.symm).symm
    · rename_i other
      rw [lastFound_of_key_ne (Ne.symm other)]
      exact h d (same ▸ hd)

theorem Recalls.known (h : s.Recalls checks) : s.known = s.rules.flatMap (lastFound checks) := by
  unfold Schedule.known rules
  rw [List.flatMap_map]
  exact List.flatMap_congr h

/-! ### How much is known -/

/-- the last checks found what the latest did, and what the last checks of the other rules did -/
theorem length_lastFound_cons (apart : (rules.map Rule.key).Nodup) (mem : r ∈ rules) :
    (rules.flatMap (lastFound ((r, found) :: checks))).length = found.length +
      ((rules.filter fun q => q.key ≠ r.key).flatMap (lastFound checks)).length := by
  obtain ⟨before, after, rfl⟩ := List.append_of_mem mem
  rw [List.map_append, List.map_cons] at apart
  have others := (List.nodup_cons.mp (List.nodup_middle.mp apart)).1
  rw [List.mem_append, not_or] at others
  have left : ∀ q ∈ before, q.key ≠ r.key := fun q hq same => others.1 (same ▸ List.mem_map_of_mem hq)
  have right : ∀ q ∈ after, q.key ≠ r.key := fun q hq same => others.2 (same ▸ List.mem_map_of_mem hq)
  have kept : ∀ others : List Rule, (∀ q ∈ others, q.key ≠ r.key) →
      others.flatMap (lastFound ((r, found) :: checks)) = others.flatMap (lastFound checks) ∧
        others.filter (fun q => q.key ≠ r.key) = others := fun others apart =>
    ⟨List.flatMap_congr fun q hq => lastFound_of_key_ne (apart q hq).symm,
      List.filter_eq_self.mpr fun q hq => decide_eq_true (apart q hq)⟩
  rw [List.filter_append, List.filter_cons_of_neg (by simp), (kept before left).2, (kept after right).2,
    List.flatMap_append, List.flatMap_cons, List.flatMap_append, (kept before left).1, (kept after right).1,
    lastFound_of_key_eq rfl]
  simp only [List.length_append]
  omega

/-- a cycle that ends well finds what its check does, and what the last checks of the other rules did -/
theorem Recalls.length_known (h : s.Recalls checks) (sound : s.IsSound)
    (answer : s.answer? check = some (r, found)) {p : Option Rule × List Violation}
    (ended : (s.runCycle check).1 = .ok p) :
    p.2.length = found.length +
      ((s.rules.filter fun q => q.key ≠ r.key).flatMap (lastFound checks)).length := by
  have after := h.runCycle check
  have same : (s.runCycle check).2.rules = s.rules := (isAlike_runCycle check).rules
  obtain ⟨t, -, ran⟩ := runCycle_of_answer?_eq_some answer
  rw [answer] at after
  rw [ran] at ended after same
  cases ended
  obtain ⟨e, he, rfl⟩ := exists_of_upcoming_eq_some (answer?_eq_some_iff.mp answer).1
  have apart : (s.rules.map Rule.key).Nodup := by
    unfold rules
    rw [List.map_map]
    exact sound.distinct
  rw [after.known, same]
  exact length_lastFound_cons apart (List.mem_map_of_mem he)

end LintLedger.Schedule
