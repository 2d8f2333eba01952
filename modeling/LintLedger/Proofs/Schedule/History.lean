import LintLedger.Proofs.Schedule.LastFound
import Mathlib

/-!
# A schedule told by its history

Every call of a schedule with rules is one of three (`runCycle_cases`): its check ends well and is recorded,
its check fails, or the rule whose turn it is has no name and is not checked.  Of a schedule from its start on,
all that is recorded is kept in a log (`Logged`).  The log tells what is known of each rule (`told`), since a
recorded check changes what the log tells of its rule as it changes the rule's state, and what it tells of no
other (`told_cons`).
-/

namespace LintLedger.Schedule

variable {s : Schedule} {r : Rule} {rules : List Rule} {ε : Type}
  {check : Rule → Except ε (List Violation)}

/-! ### One call -/

/-- what a call of a schedule with rules does: it passes the rule whose turn it is to its check, unless the
rule has no name, and records what the check finds, unless it fails -/
theorem runCycle_cases (some : s.states ≠ []) (check : Rule → Except ε (List Violation)) :
    ∃ r ∈ s.rules, ∃ cursor t, t = { s with cycle := s.cycle + 1, cursor := cursor } ∧
      (r.key = .null ∧ s.answer? check = none ∧ s.runCycle check = (.ok (none, []), t) ∨
        (∃ f, check r = .error f ∧ s.answer? check = none ∧ s.runCycle check = (.error f, t)) ∨
        ∃ found, check r = .ok found ∧ s.answer? check = .some (r, found) ∧
          s.runCycle check = (.ok (.some r, (t.record r found).known), t.record r found)) := by
  obtain ⟨⟨r, t⟩, turn⟩ := exists_select_eq_some some
  obtain ⟨⟨e, he, rfl⟩, cursor, moved⟩ := select_eq_some turn
  have next : s.upcoming? = (Option.some e.rule).filter fun r => r.key ≠ .null := by
    rw [upcoming?, turn]
    rfl
  refine ⟨e.rule, List.mem_map_of_mem he, cursor, t, moved, ?_⟩
  unfold answer? runCycle
  rw [turn, next]
  dsimp only
  by_cases nameless : e.rule.key = .null
  · exact .inl ⟨nameless, by simp [nameless], by rw [if_pos nameless]⟩
  · rw [if_neg nameless, Option.filter_some_pos (by simpa using nameless), Option.bind_some]
    cases answer : check e.rule with
    | error f => exact .inr (.inl ⟨f, rfl, rfl, rfl⟩)
    | ok found => exact .inr (.inr ⟨found, rfl, rfl, rfl⟩)

/-! ### What a log tells -/

/-- a check that was recorded: the number of the call, the rule and what was found -/
structure Recorded where
  call : ℕ
  rule : Rule
  found : List Violation

/-- the rule that was checked, and what the check found -/
def Recorded.answer (c : Recorded) : Rule × List Violation := (c.rule, c.found)

variable {log : List Recorded}

/-- the checks of a rule in a log, which holds the latest first -/
def checksOf (log : List Recorded) (r : Rule) : List Recorded := log.filter fun c => c.rule.key = r.key

/-- the state of a rule, as a log tells it: how many of its last checks found nothing, the call of its latest
check, or 0 if there is none, and what that check found -/
def told (log : List Recorded) (r : Rule) : RuleState where
  rule := r
  zeroStreak := ((checksOf log r).takeWhile fun c => c.found.isEmpty).length
  lastChecked := ((checksOf log r).head?.map (·.call)).getD 0
  found := lastFound (log.map (·.answer)) r

/-- one more check changes what is told of its rule, and of no other -/
theorem told_cons (c : Recorded) (log : List Recorded) (r : Rule) :
    told (c :: log) r =
      if r.key = c.rule.key then
        { told log r with
          lastChecked := c.call
          zeroStreak := if c.found.isEmpty then (told log r).zeroStreak + 1 else 0
          found := c.found }
      else told log r := by
  by_cases own : c.rule.key = r.key
  · have checks : checksOf (c :: log) r = c :: checksOf log r := List.filter_cons_of_pos (by simpa using own)
    have last : lastFound ((c :: log).map (·.answer)) r = c.found := lastFound_of_key_eq own
    rw [if_pos own.symm]
    unfold told
    rw [checks, last]
    cases empty : c.found.isEmpty with
    | true => simp [empty]
    | false => simp [empty]
  · have checks : checksOf (c :: log) r = checksOf log r := List.filter_cons_of_neg (by simpa using own)
    have last : lastFound ((c :: log).map (·.answer)) r = lastFound (log.map (·.answer)) r :=
      lastFound_of_key_ne own
    rw [if_neg (Ne.symm own)]
    unfold told
    rw [checks, last]

/-- recording a check changes the states as its entry changes what the log tells -/
theorem states_record (states : s.states = rules.map (told log)) (r : Rule) (found : List Violation) :
    (s.record r found).states = rules.map (told (⟨s.cycle, r, found⟩ :: log)) := by
  change s.states.map _ = _
  rw [states, List.map_map]
  refine List.map_congr_left fun q _ => ?_
  rw [told_cons]
  rfl

theorem known_of_told (states : s.states = rules.map (told log)) :
    s.known = rules.flatMap fun r => (told log r).found := by
  unfold known
  rw [states, List.flatMap_map]

/-! ### Call after call -/

/-- a schedule, the number of its calls and all that was recorded in them -/
structure Logged where
  schedule : Schedule
  calls : ℕ
  log : List Recorded

/-- one more call, which is entered into the log if its check ends well -/
def Logged.call (l : Logged) (check : Rule → Except ε (List Violation)) : Logged where
  schedule := (l.schedule.runCycle check).2
  calls := l.calls + 1
  log := match l.schedule.answer? check with
    | some (r, found) => ⟨l.calls + 1, r, found⟩ :: l.log
    | none => l.log

/-- the calls of a schedule one after another -/
def history (s : Schedule) (checks : List (Rule → Except ε (List Violation))) : Logged :=
  checks.foldl Logged.call ⟨s, 0, []⟩

theorem history_concat (s : Schedule) (checks : List (Rule → Except ε (List Violation)))
    (check : Rule → Except ε (List Violation)) :
    history s (checks ++ [check]) = (history s checks).call check :=
  List.foldl_concat ..

theorem calls_history (s : Schedule) (checks : List (Rule → Except ε (List Violation))) :
    (history s checks).calls = checks.length := by
  induction checks using List.reverseRecOn with
  | nil => rfl
  | append_singleton checks check ih =>
    rw [history_concat, List.length_append, ← ih]
    rfl

/-- whatever is in the log is what the check of that call found -/
theorem exists_check_of_mem_log {c : Recorded} {checks : List (Rule → Except ε (List Violation))}
    (h : c ∈ (history s checks).log) :
    ∃ i check, c.call = i + 1 ∧ checks[i]? = some check ∧ check c.rule = .ok c.found := by
  induction checks using List.reverseRecOn with
  | nil => cases h
  | append_singleton checks check ih =>
    have earlier : c ∈ (history s checks).log → ∃ i check', c.call = i + 1 ∧
        (checks ++ [check])[i]? = some check' ∧ check' c.rule = .ok c.found := by
      intro before
      obtain ⟨i, check', call, place, checked⟩ := ih before
      exact ⟨i, check', call, List.getElem?_append_left (List.getElem?_eq_some_iff.mp place).1 ▸ place, checked⟩
    rw [history_concat] at h
    unfold Logged.call at h
    cases answer : (history s checks).schedule.answer? check with
    | none =>
      rw [answer] at h
      exact earlier h
    | some p =>
      obtain ⟨r, found⟩ := p
      rw [answer] at h
      rcases List.mem_cons.mp h with rfl | before
      · refine ⟨checks.length, check, ?_, by simp, (answer?_eq_some_iff.mp answer).2⟩
        rw [← calls_history s checks]
      · exact earlier before

/-- whether the log tells the state of the schedule, which is one of some rules -/
structure Logged.Tells (l : Logged) (rules : List Rule) : Prop where
  cycle : l.schedule.cycle = l.calls
  states : l.schedule.states = rules.map (told l.log)
  lastRule : l.schedule.lastRule = l.log.head?.map (·.rule)

/-- whether one more call records nothing, and changes nothing but cycle and cursor -/
structure Logged.Passes (l : Logged) (check : Rule → Except ε (List Violation)) : Prop where
  log : (l.call check).log = l.log
  moved : ∃ cursor, (l.schedule.runCycle check).2 =
    { l.schedule with cycle := l.schedule.cycle + 1, cursor := cursor }

/-- what one more call does: its check is recorded, and all that the rules found last is the answer; or its
check fails; or there is no check, since the rule whose turn it is has no name -/
inductive Logged.Goes (l : Logged) (rules : List Rule) (check : Rule → Except ε (List Violation)) : Prop
  | recorded (r : Rule) (found : List Violation) (mem : r ∈ rules) (checked : check r = .ok found)
      (log : (l.call check).log = ⟨l.calls + 1, r, found⟩ :: l.log)
      (answer : (l.schedule.runCycle check).1 =
        .ok (some r, rules.flatMap fun q => (told (l.call check).log q).found))
  | failed (r : Rule) (f : ε) (mem : r ∈ rules) (checked : check r = .error f)
      (answer : (l.schedule.runCycle check).1 = .error f) (passes : l.Passes check)
  | nameless (r : Rule) (mem : r ∈ rules) (unnamed : r.key = .null)
      (answer : (l.schedule.runCycle check).1 = .ok (none, [])) (passes : l.Passes check)

theorem Logged.Tells.mem {l : Logged} (h : l.Tells rules) (hr : r ∈ l.schedule.rules) : r ∈ rules := by
  rw [Schedule.rules, h.states, List.map_map, List.mem_map] at hr
  obtain ⟨q, hq, rfl⟩ := hr
  exact hq

theorem Logged.Tells.passes {l : Logged} (h : l.Tells rules) (passes : l.Passes check) :
    (l.call check).Tells rules := by
  obtain ⟨log, cursor, moved⟩ := passes
  refine ⟨?_, ?_, ?_⟩
  · rw [Logged.call, moved, ← h.cycle]
  · rw [log, Logged.call, moved, ← h.states]
  · rw [log, Logged.call, moved, ← h.lastRule]

/-- a log that tells the state of its schedule does so after one more call -/
theorem Logged.Tells.call {l : Logged} (h : l.Tells rules) (some : rules ≠ [])
    (check : Rule → Except ε (List Violation)) : (l.call check).Tells rules ∧ l.Goes rules check := by
  have states : l.schedule.states ≠ [] := by
    rw [h.states]
    simpa using some
  obtain ⟨r, hr, cursor, t, rfl, cases⟩ := runCycle_cases states check
  rcases cases with ⟨nameless, answer, ran⟩ | ⟨f, failed, answer, ran⟩ | ⟨found, checked, answer, ran⟩
  · have passes : l.Passes check := ⟨by rw [Logged.call, answer], cursor, by rw [ran]⟩
    exact ⟨h.passes passes, .nameless r (h.mem hr) nameless (by rw [ran]) passes⟩
  · have passes : l.Passes check := ⟨by rw [Logged.call, answer], cursor, by rw [ran]⟩
    exact ⟨h.passes passes, .failed r f (h.mem hr) failed (by rw [ran]) passes⟩
  · have log : (l.call check).log = ⟨l.calls + 1, r, found⟩ :: l.log := by rw [Logged.call, answer]
    have now : (l.call check).schedule.states = rules.map (told (l.call check).log) := by
      rw [log, ← h.cycle, Logged.call, ran]
      exact states_record (s := { l.schedule with cycle := l.schedule.cycle + 1, cursor := cursor }) h.states r found
    refine ⟨⟨?_, now, ?_⟩, .recorded r found (h.mem hr) checked log ?_⟩
    · rw [Logged.call, ran, ← h.cycle]
      rfl
    · rw [log, Logged.call, ran]
      rfl
    · rw [ran, ← known_of_told now, Logged.call, ran]

/-- **The state is told by the history.** Whatever the checks of a schedule with rules find, and whichever of
them fail, after any number of calls the cycle is their number, and of each rule the log tells how many of its
last recorded checks found nothing, the call of the latest of them, and what that found.  One more call records
a check, and then answers with all that the rules found last, in the order of the rules; or its check fails, and
it changes nothing but cycle and cursor. -/
theorem told_by_history (engine : String) (zeroThreshold reducedInterval : ℕ) (some : rules ≠ [])
    (checks : List (Rule → Except ε (List Violation))) :
    let l := history (start engine zeroThreshold reducedInterval rules) checks
    l.schedule.cycle = checks.length ∧
      l.schedule.states = (Rule.distinct rules).map (told l.log) ∧
      l.schedule.lastRule = l.log.head?.map (·.rule) ∧
      (∀ c ∈ l.log, ∃ i check, c.call = i + 1 ∧ checks[i]? = .some check ∧ check c.rule = .ok c.found) ∧
      ∀ check : Rule → Except ε (List Violation), l.Goes (Rule.distinct rules) check := by
  have some : Rule.distinct rules ≠ [] := by
    obtain ⟨r, hr⟩ := List.exists_mem_of_ne_nil rules some
    obtain ⟨q, hq, -⟩ : ∃ q ∈ Rule.distinct rules, q.key = r.key := exists_mem_distinctBy hr
    exact List.ne_nil_of_mem hq
  have tells : (history (start engine zeroThreshold reducedInterval rules) checks).Tells (Rule.distinct rules) := by
    induction checks using List.reverseRecOn with
    | nil => exact ⟨rfl, rfl, rfl⟩
    | append_singleton checks check ih =>
      rw [history_concat]
      exact (ih.call some check).1
  exact ⟨by rw [tells.cycle, calls_history], tells.states, tells.lastRule,
    fun c hc => exists_check_of_mem_log hc, fun check => (tells.call some check).2⟩

/-- a check of three rules, of which one finds something, one nothing, and one fails -/
def halting (r : Rule) : Except String (List Violation) :=
  if r.key = .text "busy" then .ok [default]
  else if r.key = .text "broken" then .error "no answer"
  else .ok []

/-- the history of a round that is called five times, the last time without any finding -/
def fiveCalls : Logged :=
  history (start "eslint" 3 5 (["busy", "quiet", "broken", "busy"].map Rule.ofName))
    [halting, halting, halting, halting, fun _ => .ok []]

theorem told_by_history_fiveCalls :
    ["busy", "quiet", "broken", "busy"].map Rule.ofName ≠ [] ∧ fiveCalls.schedule.cycle = 5 ∧
      fiveCalls.log.map (fun c => (c.call, c.rule.key, c.found.length)) =
        [(5, .text "quiet", 0), (4, .text "busy", 1), (2, .text "quiet", 0), (1, .text "busy", 1)] ∧
      fiveCalls.schedule.states.map (fun e => (e.rule.key, e.zeroStreak, e.lastChecked, e.found.length)) =
        [(.text "busy", 0, 4, 1), (.text "quiet", 2, 5, 0), (.text "broken", 0, 0, 0)] ∧
      fiveCalls.Goes (["busy", "quiet", "broken"].map Rule.ofName) halting ∧
      (fiveCalls.schedule.runCycle halting).1.toOption.isNone := by
  have some : ["busy", "quiet", "broken", "busy"].map Rule.ofName ≠ [] := by decide
  obtain ⟨cycle, -, -, -, goes⟩ := told_by_history "eslint" 3 5 some
    [halting, halting, halting, halting, fun _ => .ok []]
  exact ⟨some, cycle, by decide +kernel, by decide +kernel, goes halting, by decide +kernel⟩

end LintLedger.Schedule
