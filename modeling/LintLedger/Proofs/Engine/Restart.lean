import LintLedger.Command.Run
import LintLedger.Proofs.Engine.Cycle
import LintLedger.Proofs.Engine.Turns
import LintLedger.Proofs.Store.Faults
import LintLedger.Proofs.Store.Schedules
import Mathlib

/-!
# Runs of the program

Each run of the program begins a fresh engine over the same store: the linter takes up what the store holds
of its schedule, one cycle is kept, and the schedule is saved (`Invocations`).  From run to run the schedule
is opened again (`GoesBy.cycle`), so that whose turn it was is lost.  A rule still has its turn within as
many runs as the reduced interval and its place, as long as its place is below the interval and every rule
before it is backed off in all of them (`Invocations.asks_quiet`).  Without a schedule in the store to begin
with, no other rules than the first ones, as many as the interval counts, are ever asked for
(`Invocations.asks_first`).
-/

namespace LintLedger

open Outcome

/-- whether the linter has answered in a cycle, so that its findings are told of -/
def Cycle.Answers (c : Cycle) : Prop :=
  ∃ r ∈ c.analysis.reports, r.engine = Analyzer.linterName ∧ r.success = true

instance : DecidablePred Cycle.Answers := fun c =>
  inferInstanceAs (Decidable (∃ r ∈ c.analysis.reports, r.engine = Analyzer.linterName ∧ r.success = true))

/-- whether a cycle tells of a check of the linter for the rule of a name -/
def Cycle.Asks (name : String) (c : Cycle) : Prop :=
  ∃ r ∈ c.analysis.reports, r.engine = Analyzer.linterName ∧ r.checkedRule? = some (.text name)

namespace Engine

open Store

variable {k : StoreSettings} {e : Engine} {s t : Store} {rows : Table ScheduleRow} {a : Analysis} {c : Cycle}
  {clock : Clock} {target : Option String} {y : Store × Clock}

/-! ### What a cycle does to the schedules of the store -/

/-- whether a store has a table of schedules -/
def HasSchedules (rows : Table ScheduleRow) (s : Store) : Prop := s.schedules = rows

theorem completeCheck_schedules {now : Instant} {check : Int} {found milliseconds : Value} :
    Preserves (HasSchedules rows) (commitChange (completeCheck now check found milliseconds)) := by
  refine .commitChange fun s t same done => ?_
  obtain ⟨_, _, -, -, rfl⟩ := completeCheck_eq_ok done
  exact same

theorem failCheck_schedules {now : Instant} {check : Int} {error milliseconds : Value} :
    Preserves (HasSchedules rows) (commitChange (failCheck now check error milliseconds)) := by
  refine .commitChange fun s t same done => ?_
  obtain ⟨_, _, -, -, rfl⟩ := failCheck_eq_ok done
  exact same

theorem startCheck_schedules {now : Instant} {rule engine : Value} :
    Preserves (HasSchedules rows) (commit (startCheck now rule engine)) := by
  refine .commit fun s _ t same done => ?_
  obtain ⟨_, _, -, -, -, rfl⟩ := startCheck_eq_ok done
  exact same

theorem recordRun_schedules (r : Report) : Preserves (ofStore (HasSchedules rows)) (recordRun r) := by
  unfold recordRun
  refine .bind (.timed fun now => startCheck_schedules) fun check => ?_
  refine .bind (.given _) fun milliseconds => .timed fun now => ?_
  split
  · exact completeCheck_schedules
  · exact failCheck_schedules

/-- recording an analysis leaves the schedules of the store as they are -/
theorem recordAnalysis_schedules {check : Int} :
    Preserves (ofStore (HasSchedules rows)) (recordAnalysis k check a) := by
  unfold recordAnalysis
  refine .bind (.given _) fun current => ?_
  refine .bind (.timed fun now => .commit fun s d t same done => ?_) fun delta => ?_
  · obtain ⟨_, -, -, ⟨-, rfl⟩ | ⟨_, _, -, -, rfl⟩⟩ := recordDeltas_eq_ok done
    · exact same
    · exact same
  refine .bind (fun x same => ?_) fun stored => ?_
  · obtain ⟨rows, left⟩ := exists_storeViolations_snd k x.2 a.violations x.1
    exact (congrArg Store.schedules left).trans same
  refine .bind (.forM fun r _ => recordRun_schedules r) fun _ => .bind (.timed fun now => .commitChange ?_) fun _ => .pure _
  intro s t same done
  obtain ⟨rows, -, rfl⟩ := recordMetric_eq_ok done
  exact same

/-- keeping an analysis ends with saving the schedules, which until then are what they were -/
theorem keep_saves (h : Yields (e.keep k a) (s, clock) c y) :
    ∃ mid, mid.schedules = s.schedules ∧ Yields e.saveSchedules mid () y.1 := by
  obtain ⟨-, begun, recorded, completed, started, work, ended, schedules⟩ := yields_keep h
  have begins : ofStore (HasSchedules s.schedules) begun :=
    (Preserves.timed fun _ => startCheck_schedules).yields started rfl
  have records : ofStore (HasSchedules s.schedules) recorded :=
    Preserves.yields recordAnalysis_schedules work begins
  have completes : ofStore (HasSchedules s.schedules) completed :=
    (Preserves.timed fun _ => completeCheck_schedules).yields ended records
  exact ⟨completed.1, completes, (yields_untimed.mp schedules).1⟩

/-- a cycle that ends well ends with saving the schedules of the engine as its analysis has left them -/
theorem cycle_saves (h : (e.cycle clock target s).1 = .ok c) :
    (e.analyze target).1 = .ok c.analysis ∧ ∃ mid, mid.schedules = s.schedules ∧
      Yields (e.analyze target).2.saveSchedules mid () (e.cycle clock target s).2.2 := by
  obtain ⟨k, later, -, analyzed, kept⟩ := exists_yields_of_cycle_eq_ok h
  exact ⟨analyzed, keep_saves kept⟩

/-! ### One run of the program -/

variable {scheduler : SchedulerSettings} {names : List String} {visits : List (Store × Cycle)}

/-- an engine as a run of the program begins it over a store: the analyzers that settings enable, the linter
of which checks rules of some names by turns, have taken up what the store holds -/
def Begins (scheduler : SchedulerSettings) (names : List String) (s : Store) (e : Engine) : Prop :=
  ∃ settings w keeping runner analyzers, settings.scheduler = scheduler ∧ LintsByTurns settings names ∧
    enabledAnalyzers settings runner = .ok analyzers ∧
    (Engine.of settings w (some keeping) analyzers).restore s = .ok e

/-- the schedule that the linter takes up from a store -/
def scheduleIn (scheduler : SchedulerSettings) (names : List String) (s : Store) : Schedule :=
  (firstSchedule scheduler names).restore ((loadSchedules Analyzer.linterName s).toOption.getD [])

/-- an engine of an open project is one that a run of the program begins -/
theorem begins_of_engine {env : Environment} {p : Project} (byTurns : LintsByTurns p.settings names)
    (h : env.engine p = .ok e) : Begins p.settings.scheduler names (env.store p.storePath) e := by
  obtain ⟨analyzers, enabled, restored⟩ := bind_eq_ok.mp h
  exact ⟨p.settings, _, p.keeping, _, analyzers, rfl, byTurns, enabled, restored⟩

theorem rules_firstSchedule (distinct : names.Nodup) :
    (firstSchedule scheduler names).rules = names.map .ofName := by
  have apart : ((names.map Rule.ofName).map Rule.key).Nodup := by
    rw [List.map_map]
    exact distinct.map fun m n same => Key.text.inj same
  change ((distinctBy Rule.key (names.map Rule.ofName)).map RuleState.fresh).map (·.rule) = _
  rw [distinctBy_eq_self apart, List.map_map]
  exact List.map_id' _

/-- a sound schedule of the linter over rules of some names, in their order -/
structure Follows (scheduler : SchedulerSettings) (names : List String) (schedule : Schedule) : Prop where
  sound : schedule.IsSound
  alike : (firstSchedule scheduler names).IsAlike schedule

variable {schedule : Schedule}

theorem Follows.rules (h : Follows scheduler names schedule) (distinct : names.Nodup) :
    schedule.rules = names.map .ofName :=
  h.alike.rules.trans (rules_firstSchedule distinct)

theorem Follows.exists_name (h : Follows scheduler names schedule) (distinct : names.Nodup) {d : RuleState}
    (hd : d ∈ schedule.states) : ∃ name, d.rule = .ofName name := by
  have mem : d.rule ∈ names.map .ofName := h.rules distinct ▸ List.mem_map_of_mem hd
  obtain ⟨name, -, same⟩ := List.mem_map.mp mem
  exact ⟨name, same.symm⟩

theorem Follows.reset (h : Follows scheduler names schedule) (distinct : names.Nodup) :
    schedule.reset = firstSchedule scheduler names := by
  rw [h.alike.reset]
  unfold Schedule.reset
  rw [rules_firstSchedule distinct]
  rfl

/-- the linter of a run of the program goes by the schedule that it takes up from the store -/
theorem Begins.goesBy (begins : Begins scheduler names s e) :
    Follows scheduler names (scheduleIn scheduler names s) ∧ e.GoesBy (scheduleIn scheduler names s) := by
  obtain ⟨settings, w, keeping, runner, analyzers, rfl, byTurns, enabled, restored⟩ := begins
  obtain ⟨fresh, goes⟩ := goesBy_of_enabledAnalyzers w (some keeping) byTurns enabled
  obtain ⟨kept, loaded, goes⟩ := goes.restore (by rw [Engine.of, keeping_foldl_add]; exact nofun) restored
  have taken : scheduleIn settings.scheduler names s =
      (firstSchedule settings.scheduler names).restore kept := by
    unfold scheduleIn
    rw [loaded]
    rfl
  rw [taken]
  exact ⟨⟨fresh.restore kept, Schedule.isAlike_restore kept⟩, goes⟩

/-- a cycle is one cycle of the schedule of its linter, and what the next run of the program takes up from
the store is that schedule opened again -/
theorem GoesBy.cycle (goes : e.GoesBy schedule) (follows : Follows scheduler names schedule)
    (distinct : names.Nodup) (ended : (e.cycle clock target s).1 = .ok c) (sound : s.KeepsSchedules) :
    (e.cycle clock target s).2.2.KeepsSchedules ∧ ∃ check : Rule → Except Failure (List Violation),
      scheduleIn scheduler names (e.cycle clock target s).2.2 = (schedule.runCycle check).2.reopened ∧
        (c.Answers → Schedule.Answers check ∧
          ∀ name, schedule.asked? = some (.ofName name) → c.Asks name) := by
  obtain ⟨analyzed, mid, same, saved⟩ := cycle_saves ended
  obtain ⟨check, goes, told⟩ := goes.analyze analyzed
  obtain ⟨priority, written⟩ := goes.saveSchedules saved
  have later : Follows scheduler names (schedule.runCycle check).2 :=
    ⟨follows.sound.runCycle check, follows.alike.trans (Schedule.isAlike_runCycle check)⟩
  have sound' : mid.KeepsSchedules := by
    obtain ⟨rows, known, sound⟩ := sound
    exact ⟨rows, same.trans known, sound⟩
  obtain ⟨sound'', kept, loaded, reopened⟩ :=
    restore_of_saveSchedules later.sound (fun d hd => later.exists_name distinct hd) sound' written
  have engine : (schedule.runCycle check).2.engine = Analyzer.linterName := later.alike.engine
  refine ⟨sound'', check, ?_, fun ⟨r, hr, linter, success⟩ => ?_⟩
  · rw [engine] at loaded
    rw [later.reset distinct] at reopened
    unfold scheduleIn
    rw [loaded]
    exact reopened
  · obtain ⟨answers, rule⟩ := told r hr linter success
    refine ⟨answers, fun name asks => ⟨r, hr, linter, ?_⟩⟩
    rw [Schedule.asked?_eq_upcoming?] at asks
    obtain ⟨t, -, -, checked⟩ := Schedule.runCycle_of_upcoming_eq_some check asks
    obtain ⟨found, answer⟩ := answers (.ofName name)
    rw [rule, checked found answer]
    rfl

/-! ### Runs one after another -/

/-- runs of the program over one store that all end well, each with the store as it found it -/
inductive Invocations (scheduler : SchedulerSettings) (names : List String) :
    Store → List (Store × Cycle) → Prop
  | nil (s : Store) : Invocations scheduler names s []
  | cons {s : Store} {e : Engine} {c : Cycle} {rest : List (Store × Cycle)} (clock : Clock)
      (target : Option String) (begins : Begins scheduler names s e)
      (ended : (e.cycle clock target s).1 = .ok c)
      (later : Invocations scheduler names (e.cycle clock target s).2.2 rest) :
      Invocations scheduler names s ((s, c) :: rest)

theorem Invocations.follows (h : Invocations scheduler names s visits) {v : Store × Cycle}
    (hv : v ∈ visits) : Follows scheduler names (scheduleIn scheduler names s) := by
  cases h with
  | nil => cases hv
  | cons clock target begins ended later => exact begins.goesBy.1

/-- runs of the program are cycles of one schedule with a restart after each -/
theorem Invocations.exists_checks (h : Invocations scheduler names s visits) (distinct : names.Nodup)
    (sound : s.KeepsSchedules) :
    ∃ checks : List (Rule → Except Failure (List Violation)),
      visits.map (fun v => scheduleIn scheduler names v.1) = (scheduleIn scheduler names s).restarts checks ∧
        ((∀ v ∈ visits, v.2.Answers) → ∀ check ∈ checks, Schedule.Answers check) ∧
        ∀ v ∈ visits, v.2.Answers → ∀ name,
          (scheduleIn scheduler names v.1).asked? = some (.ofName name) → v.2.Asks name := by
  induction h with
  | nil s => exact ⟨[], rfl, fun _ => nofun, nofun⟩
  | @cons s e c rest clock target begins ended _ ih =>
    obtain ⟨follows, goes⟩ := begins.goesBy
    obtain ⟨sound', check, opened, told⟩ := goes.cycle follows distinct ended sound
    obtain ⟨checks, same, answered, every⟩ := ih sound'
    refine ⟨check :: checks, ?_, fun all d hd => ?_, fun v hv => ?_⟩
    · rw [List.map_cons, same, opened]
      rfl
    · rcases List.mem_cons.mp hd with rfl | later
      · exact (told (all _ List.mem_cons_self)).1
      · exact answered (fun v hv => all v (List.mem_cons_of_mem _ hv)) d later
    · rcases List.mem_cons.mp hv with rfl | later
      · exact fun answers => (told answers).2
      · exact every v later

/-- **A rule behind others that are backed off.** If a fresh engine is begun for every run of the program and
the linter answers, any runs one after another, as many as the reduced interval and the place of a rule, check
that rule at least once, as long as its place is below the interval and in each of these runs every rule
before it is backed off. -/
theorem Invocations.asks_quiet (h : Invocations scheduler names s visits) (distinct : names.Nodup)
    (sound : s.KeepsSchedules) (answered : ∀ v ∈ visits, v.2.Answers) {j : Nat} {name : String}
    (place : names[j]? = some name) (near : j < scheduler.reducedInterval)
    (quiet : ∀ v ∈ visits, ∀ d ∈ (scheduleIn scheduler names v.1).states.take j,
      (scheduleIn scheduler names v.1).isBackedOff d = true)
    (enough : scheduler.reducedInterval + j ≤ visits.length) : ∃ v ∈ visits, v.2.Asks name := by
  obtain ⟨checks, same, answers, every⟩ := h.exists_checks distinct sound
  obtain ⟨v, hv⟩ := List.exists_mem_of_length_pos (l := visits) (by omega)
  have follows := h.follows hv
  have rule : ((scheduleIn scheduler names s).states[j]?).map (·.rule) = some (.ofName name) := by
    rw [← List.getElem?_map]
    change (scheduleIn scheduler names s).rules[j]? = _
    rw [follows.rules distinct, List.getElem?_map, place]
    rfl
  obtain ⟨d, hd, own⟩ := Option.map_eq_some_iff.mp rule
  have length : checks.length = visits.length := by
    rw [← Schedule.length_restarts (s := scheduleIn scheduler names s) checks, ← same, List.length_map]
  have interval := follows.alike.interval
  have past := follows.sound.past d (List.mem_of_getElem? hd)
  -- no rule was checked later than now, so each is due after an interval at the latest
  have asked : ∃ t ∈ (scheduleIn scheduler names s).restarts checks, t.asked? = some d.rule := by
    refine follows.sound.asked_after_restarts (Schedule.cursor_restore _) (fun c hc => ?_) hd
      (interval ▸ near) (scheduler.reducedInterval - 1) ?_ checks (answers answered) ?_ (by omega)
    · obtain ⟨other, named⟩ := follows.exists_name distinct hc
      rw [named]
      exact nofun
    · unfold Schedule.IsDueAfter
      rw [interval]
      change (scheduler.reducedInterval : Int) ≤ _
      omega
    · rw [← same]
      intro t ht
      obtain ⟨v, hv, rfl⟩ := List.mem_map.mp ht
      exact quiet v hv
  obtain ⟨t, ht, asks⟩ := asked
  rw [← same] at ht
  obtain ⟨v, hv, rfl⟩ := List.mem_map.mp ht
  exact ⟨v, hv, every v hv (answered v hv) name (own ▸ asks)⟩

/-! ### Runs over two rules -/

/-- settings under which the linter checks two rules by turns -/
def twoRules (scheduler : SchedulerSettings) : Settings where
  engines := [(Analyzer.linterName, { AnalyzerSettings.default with
    options := [(.text "rules", .list [.text "a", .text "b"])] })]
  scheduler := scheduler

/-- an engine with these settings, over a tool that finds nothing, as a run of the program begins it -/
def silentEngine (scheduler : SchedulerSettings) (s : Store) : Except Failure Engine := do
  let analyzers ← enabledAnalyzers (twoRules scheduler) (.known [] [])
  (Engine.of (twoRules scheduler) ⟨⟨.root, ["p"]⟩, .empty⟩ (some {}) analyzers).restore s

/-- some runs of the program with such engines, as far as they end well -/
def silentRuns (scheduler : SchedulerSettings) : Nat → Store → List (Store × Cycle)
  | 0, _ => []
  | n + 1, s =>
    match silentEngine scheduler s with
    | .error _ => []
    | .ok e =>
      match e.cycle (.still ⟨1⟩) none s with
      | (.error _, _) => []
      | (.ok c, _, t) => (s, c) :: silentRuns scheduler n t

theorem begins_silentEngine (h : silentEngine scheduler s = .ok e) : Begins scheduler ["a", "b"] s e := by
  obtain ⟨analyzers, enabled, restored⟩ := bind_eq_ok.mp h
  refine ⟨twoRules scheduler, _, {}, _, analyzers, rfl, ⟨⟨_, List.mem_cons_self, rfl⟩, ?_, ?_⟩, enabled,
    restored⟩
  · intro how entry
    cases List.mem_singleton.mp entry
    rfl
  · intro how entry
    cases List.mem_singleton.mp entry
    rfl

theorem silentRuns_invocations (n : Nat) (s : Store) :
    Invocations scheduler ["a", "b"] s (silentRuns scheduler n s) := by
  induction n generalizing s with
  | zero => exact .nil s
  | succ n ih =>
    unfold silentRuns
    split
    · exact .nil s
    · rename_i e begun
      split
      · exact .nil s
      · rename_i c e' t ran
        have ended : (e.cycle (.still ⟨1⟩) none s).1 = .ok c := by rw [ran]
        have left : (e.cycle (.still ⟨1⟩) none s).2.2 = t := by rw [ran]
        exact .cons _ _ (begins_silentEngine begun) ended (left ▸ ih t)

/-- a store in which two rules are backed off that were checked one after the other -/
def backedOff : Store :=
  { Store.empty with
    schedules := some [⟨1, "a", "eslint", true, 1, 1, 1⟩, ⟨2, "b", "eslint", true, 1, 1, 2⟩] }

/-- the first of the two rules is checked again, and then the second -/
theorem asks_quiet_second :
    (silentRuns ⟨1, 2⟩ 3 backedOff).length = 2 + 1 ∧ (∀ v ∈ silentRuns ⟨1, 2⟩ 3 backedOff, v.2.Answers) ∧
      ∃ v ∈ silentRuns ⟨1, 2⟩ 3 backedOff, v.2.Asks "b" := by
  have sound : backedOff.KeepsSchedules := ⟨_, rfl, by decide, by decide⟩
  have length : (silentRuns ⟨1, 2⟩ 3 backedOff).length = 2 + 1 := by decide +kernel
  have answered : ∀ v ∈ silentRuns ⟨1, 2⟩ 3 backedOff, v.2.Answers := by decide +kernel
  have quiet : ∀ v ∈ silentRuns ⟨1, 2⟩ 3 backedOff, ∀ d ∈ (scheduleIn ⟨1, 2⟩ ["a", "b"] v.1).states.take 1,
      (scheduleIn ⟨1, 2⟩ ["a", "b"] v.1).isBackedOff d = true := by
    decide +kernel
  refine ⟨length, answered, ?_⟩
  exact (silentRuns_invocations 3 backedOff).asks_quiet (by decide) sound answered (j := 1) rfl
    (by decide) quiet length.ge

/-- with an interval of one cycle the second rule is not checked in as many runs as would check it if they
were cycles of one process -/
theorem second_never_asked :
    Invocations ⟨1, 1⟩ ["a", "b"] .empty (silentRuns ⟨1, 1⟩ 2 .empty) ∧
      (silentRuns ⟨1, 1⟩ 2 .empty).length = 1 + ["a", "b"].length - 1 ∧
      (∀ v ∈ silentRuns ⟨1, 1⟩ 2 .empty, v.2.Answers) ∧ ∀ v ∈ silentRuns ⟨1, 1⟩ 2 .empty, ¬v.2.Asks "b" := by
  -- what both runs checked, in words that can be compared
  have told : ((silentRuns ⟨1, 1⟩ 2 .empty).flatMap fun v => v.2.analysis.reports.map fun r =>
      r.checkedRule?.map Value.display) = [some "a", some "a"] := by
    decide +kernel
  refine ⟨silentRuns_invocations 2 .empty, by decide +kernel, by decide +kernel, ?_⟩
  rintro v hv ⟨r, hr, -, asks⟩
  have mem : r.checkedRule?.map Value.display ∈ [some "a", some "a"] :=
    told ▸ List.mem_flatMap.mpr ⟨v, hv, List.mem_map_of_mem hr⟩
  rw [asks] at mem
  revert mem
  decide

/-- **A rule behind as many others as the interval counts.** If a fresh engine is begun for every run of the
program, over a store in which nothing is kept of the linter to begin with, the linter never asks for any
rule but the first ones, as many as the reduced interval counts, whatever it answers. -/
theorem Invocations.asks_first (h : Invocations scheduler names s visits) (distinct : names.Nodup)
    (sound : s.KeepsSchedules) (new : loadSchedules Analyzer.linterName s = .ok []) :
    ∀ v ∈ visits, ∀ name, (scheduleIn scheduler names v.1).asked? = some (.ofName name) →
      ∃ j < scheduler.reducedInterval, names[j]? = some name := by
  intro v hv name asks
  obtain ⟨checks, same, -, -⟩ := h.exists_checks distinct sound
  have first : scheduleIn scheduler names s = firstSchedule scheduler names := by
    unfold scheduleIn
    rw [new]
    rfl
  have apart : (scheduleIn scheduler names s).IsApart := by
    rw [first]
    exact .start _ _ _ _
  have follows := h.follows hv
  have ht : scheduleIn scheduler names v.1 ∈ (scheduleIn scheduler names s).restarts checks :=
    same ▸ List.mem_map_of_mem hv
  obtain ⟨j, near, place⟩ :=
    follows.sound.exists_place_of_restarts apart (Schedule.cursor_restore _) checks ht asks
  refine ⟨j, near.trans_eq follows.alike.interval, ?_⟩
  rw [follows.rules distinct, List.getElem?_map] at place
  obtain ⟨other, own, same⟩ := Option.map_eq_some_iff.mp place
  rw [own, Key.text.inj (congrArg Rule.key same)]

end Engine

end LintLedger
