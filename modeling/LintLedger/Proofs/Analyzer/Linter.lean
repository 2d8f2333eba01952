import LintLedger.Proofs.Analyzer.Contract
import LintLedger.Proofs.Schedule.Record
import Mathlib

/-!
# The linter under the contract

A run of the linter hands on what it found for the rules that it was made for, and, if rules go by
turns, what earlier runs found for the others.  It escapes just if one of these has no normal form,
that is if a message that was asked for is not plain, or was not when its rule had its last turn
(`escapes_linter_iff`).  So a linter all of whose messages have been plain never escapes but for a
target that is no path, however often it is run, takes up a kept schedule or is given other tools
(`Calm.escapes_iff`).
-/

namespace LintLedger

open Outcome

/-! ### What a run reads -/

/-- the messages that a tool writes if it is run for a command and ends well -/
def Runner.lintMessages (runner : Runner) (request : ToolRequest) : List Value :=
  match (runner.run request false).1.outcome with
  | .ok o => if Text.strip o.stdout = "" then [] else Output.lintMessages o.stdout
  | .error _ => []

namespace Analyzer

/-- the rules that a run for some of `count` rules asks for; no rules at all ask for everything -/
def askedRules (count : Nat) (rules : List Rule) : List Rule :=
  if rules.length < count then rules else []

namespace LintState

/-- the rules that a run is made for, if it is made at all -/
def turn? (s : LintState) (options : Options) : Option (List Rule) :=
  if goesByTurns options then s.schedule.upcoming?.map fun r => [r] else some s.rules

/-- the findings of earlier runs that a run hands on: those for the rules whose turn it is not -/
def kept (s : LintState) (options : Options) : List Violation :=
  if goesByTurns options then
    match s.schedule.upcoming? with
    | some r => (s.schedule.states.filter fun e => e.rule.key ≠ r.key).flatMap (·.found)
    | none => []
  else []

/-- whether a run reads a message of a rule that it asks for -/
def Reads (s : LintState) (runner : Runner) (place : Path) (options : Options) (m : Value) : Prop :=
  ∃ rules, s.turn? options = some rules ∧ ∃ command, lintCommandOf options place = .ok command ∧
    m ∈ runner.lintMessages (options.request command) ∧
    Output.IsAsked (askedRules s.rules.length rules) m

end LintState

variable {w : Workspace} {runner : Runner} {place : Path} {options : Options} {s : LintState}

theorem lintOutcome_isTrimmable_iff {command : List String} {only : List Rule} {vs : List Violation}
    {request : ToolRequest}
    (h : lintOutcome w command only (runner.run request false).1 = .ok vs) :
    (∀ v ∈ vs, v.IsTrimmable) ↔
      ∀ m ∈ runner.lintMessages request, Output.IsAsked only m → Output.IsPlain m := by
  unfold lintOutcome at h
  obtain ⟨o, ended, h⟩ := bind_eq_ok.mp h
  unfold Runner.lintMessages
  rw [ended]
  dsimp only at h ⊢
  split at h
  · cases h
  · by_cases blank : Text.strip o.stdout = ""
    · rw [if_pos blank] at h ⊢
      cases h
      simp
    · rw [if_neg blank] at h ⊢
      exact Output.lintFindings_isTrimmable_iff (orFail_eq_ok.mp h)

/-- what a run finds has a normal form just if every message that it reads is plain -/
theorem runLint_isTrimmable_iff {rules : List Rule} {vs : List Violation}
    (turn : s.turn? options = some rules)
    (h : (runLint w runner place options s.rules.length rules).1.outcome = .ok vs) :
    (∀ v ∈ vs, v.IsTrimmable) ↔ ∀ m, s.Reads runner place options m → Output.IsPlain m := by
  unfold runLint at h
  split at h
  · cases h
  · rename_i command written
    rw [lintOutcome_isTrimmable_iff h]
    constructor
    · rintro all m ⟨others, hothers, other, hother, read, asked⟩
      obtain rfl : rules = others := by simpa [turn] using hothers
      obtain rfl : command = other := by simpa [written] using hother
      exact all m read asked
    · intro all m read asked
      exact all m ⟨rules, turn, command, written, read, asked⟩

/-! ### One run -/

theorem runLinter_of_not_goesByTurns (h : ¬ goesByTurns options = true) :
    (runLinter w runner place options s).1 = (runLint w runner place options s.rules.length s.rules).1
      ∧ (runLinter w runner place options s).2.2 = s := by
  unfold runLinter
  dsimp only
  rw [if_neg h]
  exact ⟨rfl, rfl⟩

/-- the check of a rule by a run of a linter with some rules -/
def checkOf (w : Workspace) (runner : Runner) (place : Path) (options : Options) (count : Nat) (rule : Rule) :
    Except Failure (List Violation) :=
  (runLint w runner place options count [rule]).1.outcome

/-- a run by turns is one cycle of the schedule -/
theorem runLinter_of_goesByTurns (w : Workspace) (runner : Runner) (place : Path) (s : LintState)
    (turns : goesByTurns options = true) :
    (runLinter w runner place options s).1.outcome = (s.schedule.runCycle
        (checkOf w runner place options s.rules.length)).1.map Prod.snd ∧
      (runLinter w runner place options s).2.2 = { s with
        schedule := (s.schedule.runCycle (checkOf w runner place options s.rules.length)).2 } := by
  unfold runLinter
  dsimp only
  rw [if_pos turns]
  cases next : s.schedule.upcoming? with
  | none =>
    dsimp only
    rw [Schedule.runCycle_congr (g := checkOf w runner place options s.rules.length) fun rule upcoming => ?_]
    · exact ⟨rfl, rfl⟩
    · rw [next] at upcoming
      cases upcoming
  | some rule =>
    dsimp only
    rw [Schedule.runCycle_congr (g := checkOf w runner place options s.rules.length) fun rule upcoming => ?_]
    · exact ⟨rfl, rfl⟩
    · rw [next] at upcoming
      cases upcoming
      rfl

theorem runLinter_of_upcoming_eq_none (turns : goesByTurns options = true)
    (idle : s.schedule.upcoming? = none) :
    (runLinter w runner place options s).1.outcome = .ok [] ∧
      (runLinter w runner place options s).2.2.schedule.states = s.schedule.states := by
  obtain ⟨ended, next⟩ := runLinter_of_goesByTurns w runner place s turns
  obtain ⟨found, same⟩ := Schedule.runCycle_of_upcoming_eq_none
    (checkOf w runner place options s.rules.length) idle
  rw [ended, next, found]
  exact ⟨rfl, same⟩

/-- a run for the rule whose turn it is records what it finds and answers with all that is known -/
theorem runLinter_of_upcoming_eq_some (w : Workspace) (runner : Runner) (place : Path) {r : Rule}
    (turns : goesByTurns options = true) (next : s.schedule.upcoming? = some r) :
    ∃ t : Schedule, t.states = s.schedule.states ∧
      (∀ f, (runLint w runner place options s.rules.length [r]).1.outcome = .error f →
        (runLinter w runner place options s).1.outcome = .error f ∧
        (runLinter w runner place options s).2.2.schedule = t) ∧
      ∀ found, (runLint w runner place options s.rules.length [r]).1.outcome = .ok found →
        (runLinter w runner place options s).1.outcome = .ok (t.record r found).known ∧
        (runLinter w runner place options s).2.2.schedule = t.record r found := by
  obtain ⟨ended, after⟩ := runLinter_of_goesByTurns w runner place s turns
  obtain ⟨t, same, failed, checked⟩ := Schedule.runCycle_of_upcoming_eq_some
    (checkOf w runner place options s.rules.length) next
  rw [ended, after]
  refine ⟨t, same, fun f h => ?_, fun found h => ?_⟩
  · rw [failed f h]
    exact ⟨rfl, rfl⟩
  · rw [checked found h]
    exact ⟨rfl, rfl⟩

/-- what is known after a run was known before, or has just been found for the rule whose turn it was -/
theorem mem_known_runLinter {v : Violation}
    (hv : v ∈ (runLinter w runner place options s).2.2.schedule.known) :
    v ∈ s.schedule.known ∨ goesByTurns options = true ∧ ∃ r found, s.schedule.upcoming? = some r ∧
      (runLint w runner place options s.rules.length [r]).1.outcome = .ok found ∧ v ∈ found := by
  have kept : ∀ t : Schedule, t.states = s.schedule.states → v ∈ t.known → v ∈ s.schedule.known := by
    intro t same hv
    obtain ⟨e, he, hv⟩ := Schedule.mem_known.mp hv
    exact Schedule.mem_known.mpr ⟨e, same ▸ he, hv⟩
  by_cases turns : goesByTurns options = true
  · cases next : s.schedule.upcoming? with
    | none => exact .inl (kept _ (runLinter_of_upcoming_eq_none turns next).2 hv)
    | some r =>
      obtain ⟨t, same, failed, checked⟩ := runLinter_of_upcoming_eq_some w runner place turns next
      cases ran : (runLint w runner place options s.rules.length [r]).1.outcome with
      | error f =>
        rw [(failed f ran).2] at hv
        exact .inl (kept t same hv)
      | ok found =>
        rw [(checked found ran).2] at hv
        obtain ⟨e, he, rfl⟩ := Schedule.exists_of_upcoming_eq_some next
        rcases (Schedule.mem_known_record ⟨e, same ▸ he, rfl⟩).mp hv with new | ⟨d, hd, -, old⟩
        · exact .inr ⟨turns, e.rule, found, rfl, ran, new⟩
        · exact .inl (kept t same (Schedule.mem_known.mpr ⟨d, hd, old⟩))
  · rw [(runLinter_of_not_goesByTurns turns).2] at hv
    exact .inl hv

/-- what a run by turns hands on is known after it -/
theorem mem_known_of_runLinter {vs : List Violation} (turns : goesByTurns options = true)
    (h : (runLinter w runner place options s).1.outcome = .ok vs) :
    ∀ v ∈ vs, v ∈ (runLinter w runner place options s).2.2.schedule.known := by
  cases next : s.schedule.upcoming? with
  | none =>
    rw [(runLinter_of_upcoming_eq_none turns next).1] at h
    cases h
    exact List.forall_mem_nil _
  | some r =>
    obtain ⟨t, -, failed, checked⟩ := runLinter_of_upcoming_eq_some w runner place turns next
    cases ran : (runLint w runner place options s.rules.length [r]).1.outcome with
    | error f =>
      rw [(failed f ran).1] at h
      cases h
    | ok found =>
      rw [(checked found ran).1] at h
      cases h
      rw [(checked found ran).2]
      exact fun v hv => hv

/-- what is known once the check of a rule is recorded has a normal form just if the check found such
things and so did the last checks of the other rules -/
theorem known_record_isTrimmable_iff {t : Schedule} {r : Rule} {found : List Violation}
    (turns : goesByTurns options = true) (next : s.schedule.upcoming? = some r)
    (same : t.states = s.schedule.states) :
    (∀ v ∈ (t.record r found).known, v.IsTrimmable) ↔
      (∀ v ∈ s.kept options, v.IsTrimmable) ∧ ∀ v ∈ found, v.IsTrimmable := by
  obtain ⟨e, he, rfl⟩ := Schedule.exists_of_upcoming_eq_some next
  have kept : ∀ v, v ∈ s.kept options ↔
      ∃ d ∈ t.states, d.rule.key ≠ e.rule.key ∧ v ∈ d.found := by
    intro v
    unfold LintState.kept
    rw [if_pos turns, next, same]
    simp [and_assoc]
  have known : ∀ v, v ∈ (t.record e.rule found).known ↔ v ∈ found ∨ v ∈ s.kept options := by
    intro v
    rw [kept, Schedule.mem_known_record ⟨e, same ▸ he, rfl⟩]
  constructor
  · intro all
    exact ⟨fun v hv => all v ((known v).mpr (.inr hv)), fun v hv => all v ((known v).mpr (.inl hv))⟩
  · rintro ⟨old, new⟩ v hv
    exact ((known v).mp hv).elim (new v) (old v)

/-- what a run hands on has a normal form just if every message that it reads is plain and so are the
findings that it kept -/
theorem runLinter_isTrimmable_iff {vs : List Violation}
    (h : (runLinter w runner place options s).1.outcome = .ok vs) :
    (∀ v ∈ vs, v.IsTrimmable) ↔
      (∀ v ∈ s.kept options, v.IsTrimmable) ∧
        ∀ m, s.Reads runner place options m → Output.IsPlain m := by
  by_cases turns : goesByTurns options = true
  · cases next : s.schedule.upcoming? with
    | none =>
      rw [(runLinter_of_upcoming_eq_none turns next).1] at h
      cases h
      have nothing : s.kept options = [] := by simp [LintState.kept, turns, next]
      have unread : ∀ m, ¬ s.Reads runner place options m := by
        rintro m ⟨rules, turn, -⟩
        simp [LintState.turn?, turns, next] at turn
      simp [nothing, unread]
    | some r =>
      have turn : s.turn? options = some [r] := by simp [LintState.turn?, turns, next]
      obtain ⟨t, same, failed, checked⟩ := runLinter_of_upcoming_eq_some w runner place turns next
      cases ran : (runLint w runner place options s.rules.length [r]).1.outcome with
      | error f =>
        rw [(failed f ran).1] at h
        cases h
      | ok found =>
        rw [(checked found ran).1] at h
        cases h
        rw [known_record_isTrimmable_iff turns next same, runLint_isTrimmable_iff turn ran]
  · have turn : s.turn? options = some s.rules := by simp [LintState.turn?, turns]
    have nothing : s.kept options = [] := by simp [LintState.kept, turns]
    rw [(runLinter_of_not_goesByTurns turns).1] at h
    rw [runLint_isTrimmable_iff turn h, nothing]
    simp

/-- whether all that the rules found last has a normal form -/
def LintState.IsTrimmable (s : LintState) : Prop := ∀ v ∈ s.schedule.known, v.IsTrimmable

theorem LintState.IsTrimmable.kept (h : s.IsTrimmable) : ∀ v ∈ s.kept options, v.IsTrimmable := by
  intro v hv
  unfold LintState.kept at hv
  split at hv
  · split at hv
    · obtain ⟨e, he, hv⟩ := List.mem_flatMap.mp hv
      exact h v (Schedule.mem_known.mpr ⟨e, List.mem_of_mem_filter he, hv⟩)
    · cases hv
  · cases hv

/-- a run that reads plain messages only keeps what is known in a normal form -/
theorem LintState.IsTrimmable.runLinter (h : s.IsTrimmable)
    (plain : ∀ m, s.Reads runner place options m → Output.IsPlain m) :
    (runLinter w runner place options s).2.2.IsTrimmable := by
  intro v hv
  rcases mem_known_runLinter hv with old | ⟨turns, r, found, next, ran, new⟩
  · exact h v old
  · have turn : s.turn? options = some [r] := by simp [LintState.turn?, turns, next]
    exact (runLint_isTrimmable_iff turn ran).mpr plain v new

/-! ### The contract -/

/-- whether a run of an analyzer reads a message of the linter that it asks for -/
def Reads (w : Workspace) (a : Analyzer) (target : String) (options : Options) (m : Value) : Prop :=
  match a.method with
  | .linter runner s => s.Reads runner (placeOf w target) (a.optionsWith options) m
  | _ => False

variable {a : Analyzer} {target : String}

/-- a run of the linter escapes just if its target is no path, or it ends well with something that it
kept or read and that has no normal form -/
theorem escapes_linter_iff (method : a.method = .linter runner s) :
    a.Escapes w target options ↔
      '\x00' ∈ target.toList ∨ (∃ vs, a.settledRun w target options = .ok vs) ∧
        ((∃ v ∈ s.kept (a.optionsWith options), ¬ v.IsTrimmable) ∨
          ∃ m, a.Reads w target options m ∧ ¬ Output.IsPlain m) := by
  unfold Escapes
  refine or_congr_right ?_
  have settles : ∀ vs, a.settledRun w target options = .ok vs →
      ((∃ v ∈ vs, ¬ v.IsTrimmable) ↔ (∃ v ∈ s.kept (a.optionsWith options), ¬ v.IsTrimmable) ∨
        ∃ m, a.Reads w target options m ∧ ¬ Output.IsPlain m) := by
    intro vs hvs
    obtain ⟨one, found, hone⟩ := outcome_of_settle_eq_ok hvs
    unfold find at found
    rw [method] at found
    cases found
    have same := not_congr (runLinter_isTrimmable_iff hone)
    unfold Reads
    rw [method]
    simpa only [not_forall, not_and_or, exists_prop] using same
  constructor
  · rintro ⟨vs, hvs, ragged⟩
    exact ⟨⟨vs, hvs⟩, (settles vs hvs).mp ragged⟩
  · rintro ⟨⟨vs, hvs⟩, ragged⟩
    exact ⟨vs, hvs, (settles vs hvs).mpr ragged⟩

/-! ### Linters from run to run -/

/-- a fresh linter has checked nothing -/
theorem exists_of_linter_eq_ok {settings : AnalyzerSettings} {zeroThreshold reducedInterval : Int}
    (fresh : linter settings runner zeroThreshold reducedInterval = .ok a) :
    ∃ rules threshold interval, lintRules settings.options = .ok rules ∧ 0 < threshold ∧ 0 < interval ∧
      a = ⟨linterName, .eslint, settings,
        .linter runner ⟨rules, .start linterName threshold interval rules⟩⟩ := by
  obtain ⟨s, started, rfl⟩ := map_eq_ok.mp fresh
  unfold LintState.start at started
  dsimp only at started
  split at started
  · cases started
  · rename_i positive
    obtain ⟨rules, listed, started⟩ := bind_eq_ok.mp started
    cases started
    simp only [Bool.or_eq_true, decide_eq_true_eq, not_or, not_lt] at positive
    exact ⟨rules, _, _, orFail_eq_ok.mp listed, by omega, by omega, rfl⟩

theorem find_linter (w : Workspace) (place : Path) (options : Options)
    (method : a.method = .linter runner s) :
    a.find w place options = (some (runLinter w runner place options s).1, { a with
      method := .linter (runLinter w runner place options s).2.1
        (runLinter w runner place options s).2.2 }) := by
  unfold find
  rw [method]

/-- a run leaves a linter as it was, or with what the run has made of its state -/
theorem exists_method_execute (w : Workspace) (target : String) (options : Options)
    (method : a.method = .linter runner s) :
    ∃ runner' s', (a.execute w target options).2.method = .linter runner' s' ∧
      (s' = s ∨ s' = (runLinter w runner (placeOf w target) (a.optionsWith options) s).2.2) := by
  by_cases named : '\x00' ∈ target.toList
  · rw [execute_snd_of_unnamed named]
    exact ⟨runner, s, method, .inl rfl⟩
  · rw [execute_snd_eq_find named, find_linter w (placeOf w target) (a.optionsWith options) method]
    exact ⟨_, _, rfl, .inr rfl⟩

theorem schedule?_of_linter (method : a.method = .linter runner s) : a.schedule? = some s.schedule := by
  unfold schedule?
  rw [method]

theorem method_withSchedule (method : a.method = .linter runner s) (schedule : Schedule) :
    (a.withSchedule schedule).method = .linter runner { s with schedule := schedule } := by
  unfold withSchedule
  rw [method]

theorem method_withRunner (method : a.method = .linter runner s) (other : Runner) :
    (a.withRunner other).method = .linter other s := by
  unfold withRunner
  rw [method]

theorem settings_withSchedule (a : Analyzer) (schedule : Schedule) :
    (a.withSchedule schedule).settings = a.settings := by
  unfold withSchedule
  split <;> rfl

theorem settings_withRunner (a : Analyzer) (other : Runner) :
    (a.withRunner other).settings = a.settings := by
  unfold withRunner
  split <;> rfl

/-- the analyzers that a fresh linter turns into while it reads plain messages only: by runs, by
taking up a kept schedule, and by being given other tools -/
inductive Calm : Analyzer → Prop
  | start {settings : AnalyzerSettings} {runner : Runner} {zeroThreshold reducedInterval : Int}
      {a : Analyzer} (fresh : linter settings runner zeroThreshold reducedInterval = .ok a) : Calm a
  | execute {w : Workspace} {a : Analyzer} {target : String} {options : Options} (h : Calm a)
      (plain : ∀ m, a.Reads w target options m → Output.IsPlain m) :
      Calm (a.execute w target options).2
  | restore {a : Analyzer} {schedule : Schedule} {saved : List SavedState} (h : Calm a)
      (kept : a.schedule? = some schedule) : Calm (a.withSchedule (schedule.restore saved))
  | equip {a : Analyzer} {runner : Runner} (h : Calm a) : Calm (a.withRunner runner)

/-- a calm analyzer is a linter all of whose findings have a normal form -/
theorem Calm.exists_state (h : a.Calm) :
    ∃ runner s, a.method = .linter runner s ∧ s.IsTrimmable := by
  induction h with
  | @start settings runner zeroThreshold reducedInterval a fresh =>
    obtain ⟨rules, threshold, interval, -, -, -, rfl⟩ := exists_of_linter_eq_ok fresh
    refine ⟨runner, _, rfl, fun v hv => ?_⟩
    obtain ⟨e, he, hv⟩ := Schedule.mem_known.mp hv
    obtain ⟨r, -, rfl⟩ := List.mem_map.mp he
    cases hv
  | @execute w a target options _ plain ih =>
    obtain ⟨runner, s, method, known⟩ := ih
    unfold Reads at plain
    rw [method] at plain
    obtain ⟨runner', s', method', rfl | rfl⟩ := exists_method_execute w target options method
    · exact ⟨runner', s', method', known⟩
    · exact ⟨runner', _, method', known.runLinter plain⟩
  | @restore a schedule saved _ kept ih =>
    obtain ⟨runner, s, method, known⟩ := ih
    obtain rfl : s.schedule = schedule := Option.some.inj ((schedule?_of_linter method).symm.trans kept)
    refine ⟨runner, _, method_withSchedule method _, ?_⟩
    unfold LintState.IsTrimmable
    dsimp only
    rw [Schedule.known_restore]
    exact known
  | @equip a runner _ ih =>
    obtain ⟨old, s, method, known⟩ := ih
    exact ⟨runner, s, method_withRunner method runner, known⟩

/-- a calm linter that reads plain messages escapes only if its target is no path -/
theorem Calm.escapes_iff (h : a.Calm) (plain : ∀ m, a.Reads w target options m → Output.IsPlain m) :
    a.Escapes w target options ↔ '\x00' ∈ target.toList := by
  obtain ⟨runner, s, method, known⟩ := h.exists_state
  rw [escapes_linter_iff method]
  refine ⟨?_, .inl⟩
  rintro (named | ⟨-, ⟨v, hv, ragged⟩ | ⟨m, hm, ragged⟩⟩)
  · exact named
  · exact absurd (known.kept v hv) ragged
  · exact absurd (plain m hm) ragged

end Analyzer

end LintLedger
