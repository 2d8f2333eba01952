import LintLedger.Proofs.Analyzer.Hearing
import LintLedger.Proofs.Engine.Findings
import LintLedger.Proofs.Engine.Work
import LintLedger.Proofs.Schedule.LastFound
import Mathlib

/-!
# An engine with a linter

Of the built-in analyzers the linter alone checks its rules by turns.  So there is one schedule in an
engine with a linter (`GoesBy`), from its beginning (`goesBy_of_enabledAnalyzers`) on: it takes up what the
store holds (`GoesBy.restore`), each analysis is one cycle of it (`GoesBy.exists_check`), and it is what is
saved (`GoesBy.saveSchedules`).
-/

namespace LintLedger

open Outcome

/-! ### One run of the linter -/

namespace Analyzer

variable {w : Workspace} {a : Analyzer} {target : String} {r : Report}

/-- whether an analyzer is a linter that checks its rules by turns, as a schedule has them -/
def TurnsBy (a : Analyzer) (schedule : Schedule) : Prop :=
  a.name = linterName ∧ goesByTurns a.settings.options = true ∧
    ∃ runner rules, a.method = .linter runner ⟨rules, schedule⟩

/-- an analyzer by another name than that of the linter, without a schedule -/
def IsPlain (a : Analyzer) : Prop := a.name ≠ linterName ∧ a.schedule? = none

/-- the rule that the next run of a linter by turns checks and what the check finds, if the run checks one and
the check ends well -/
def answer? (w : Workspace) (a : Analyzer) (target : String) : Option (Rule × List Violation) :=
  match a.method with
  | .linter runner s =>
    s.schedule.answer? (checkOf w runner (placeOf w target) (a.optionsWith []) s.rules.length)
  | _ => none

/-- whether a report, if it is one of success, is that of a cycle of a schedule: the cycle has ended well, the
report tells of all that it found, and bears the last rule -/
def TellsOfCycle (r : Report) (cycle : Except Failure (Option Rule × List Violation) × Schedule) : Prop :=
  r.success = true → ∃ p, cycle.1 = .ok p ∧ r.violations.length = p.2.length ∧
    r.checkedRule? = cycle.2.lastRule.map (·.value)

/-- a run of the linter that ends with a report is one cycle of its schedule -/
theorem TurnsBy.execute {schedule : Schedule} (turns : a.TurnsBy schedule)
    (h : (a.execute w target []).1 = .ok r) :
    ∃ check : Rule → Except Failure (List Violation), a.answer? w target = schedule.answer? check ∧
      (a.execute w target []).2.TurnsBy (schedule.runCycle check).2 ∧
        TellsOfCycle r (schedule.runCycle check) := by
  obtain ⟨name, byTurns, runner, rules, method⟩ := turns
  obtain ⟨⟨runner', after⟩, told⟩ := execute_eq_runCycle method byTurns h
  refine ⟨checkOf w runner (placeOf w target) (a.optionsWith []) rules.length, ?_, ?_, fun success => ?_⟩
  · unfold answer?
    rw [method]
  · rw [after]
    exact ⟨name, byTurns, runner', rules, rfl⟩
  · obtain ⟨p, answer, violations, last⟩ := told success
    exact ⟨p, answer, by rw [violations, List.length_map], last⟩

/-- an analyzer without a schedule checks no rule -/
theorem IsPlain.answer?_eq_none (plain : a.IsPlain) : a.answer? w target = none := by
  obtain ⟨-, none⟩ := plain
  unfold schedule? at none
  unfold answer?
  cases method : a.method with
  | linter runner s =>
    rw [method] at none
    cases none
  | _ => rfl

/-- a run does not give a schedule to an analyzer -/
theorem schedule?_execute_eq_none (none : a.schedule? = none) : (a.execute w target []).2.schedule? = .none := by
  by_cases named : '\x00' ∈ target.toList
  · rw [execute_snd_of_unnamed named]
    exact none
  · rw [execute_snd_eq_find named]
    unfold schedule? at none
    unfold find
    cases method : a.method with
    | linter runner s =>
      rw [method] at none
      cases none
    | compiler runner => rfl
    | exports runner => rfl
    | outside outcome elapsed =>
      dsimp only
      cases outcome <;> (unfold schedule?; rw [method])

theorem name_execute : (a.execute w target []).2.name = a.name := by
  obtain ⟨method, same⟩ := execute_snd w a target []
  rw [same]

/-- a run leaves an analyzer plain -/
theorem IsPlain.execute (plain : a.IsPlain) : (a.execute w target []).2.IsPlain :=
  ⟨(@name_execute w a target).symm ▸ plain.1, schedule?_execute_eq_none plain.2⟩

end Analyzer

namespace Engine

open Store

variable {e e' : Engine} {a b : Analyzer} {s t : Store} {schedule : Schedule} {target : Option String}

/-! ### The registry -/

theorem mem_add (h : b ∈ (e.add a).analyzers) : b = a ∨ b ∈ e.analyzers := by
  unfold add at h
  dsimp only at h
  split at h
  · obtain ⟨c, hc, rfl⟩ := List.mem_map.mp h
    split
    · exact .inl rfl
    · exact .inr hc
  · exact (List.mem_append.mp h).elim .inr fun own => .inl (List.mem_singleton.mp own)

/-- the names of the analyzers once one has been added -/
theorem names_add : (e.add a).analyzers.map (·.name) =
    if a.name ∈ e.analyzers.map (·.name) then e.analyzers.map (·.name)
    else e.analyzers.map (·.name) ++ [a.name] := by
  have known : (e.analyzers.any (isNamed a.name)) = true ↔ a.name ∈ e.analyzers.map (·.name) := by
    simp [isNamed]
  unfold add
  dsimp only
  by_cases old : a.name ∈ e.analyzers.map (·.name)
  · rw [if_pos (known.mpr old), if_pos old, List.map_map]
    refine List.map_congr_left fun b _ => ?_
    dsimp only [Function.comp]
    split
    · rename_i same
      exact (of_decide_eq_true same).symm
    · rfl
  · rw [if_neg (mt known.mp old), if_neg old, List.map_append]
    rfl

/-- adding analyzers changes nothing else of an engine -/
theorem keeping_foldl_add (added : List Analyzer) :
    (added.foldl (fun e a => e.add a) e).keeping = e.keeping := by
  induction added generalizing e with
  | nil => rfl
  | cons a rest ih =>
    rw [List.foldl_cons, ih]
    rfl

/-- the analyzers that are added one after another: no two have one name, each is one of those that were
added, and each name that was added is there -/
theorem foldl_add (added : List Analyzer) (apart : (e.analyzers.map (·.name)).Nodup) :
    ((added.foldl (fun e a => e.add a) e).analyzers.map (·.name)).Nodup ∧
      (∀ b ∈ (added.foldl (fun e a => e.add a) e).analyzers, b ∈ added ∨ b ∈ e.analyzers) ∧
      ∀ name ∈ added.map (·.name) ++ e.analyzers.map (·.name),
        name ∈ (added.foldl (fun e a => e.add a) e).analyzers.map (·.name) := by
  induction added generalizing e with
  | nil => exact ⟨apart, fun b hb => .inr hb, fun name h => by simpa using h⟩
  | cons a rest ih =>
    rw [List.foldl_cons]
    have apart' : ((e.add a).analyzers.map (·.name)).Nodup := by
      rw [names_add]
      split
      · exact apart
      · rename_i new
        exact List.nodup_append.mpr ⟨apart, List.nodup_singleton _, fun name old other own same =>
          new (List.mem_singleton.mp own ▸ same ▸ old)⟩
    obtain ⟨distinct, some, every⟩ := ih apart'
    refine ⟨distinct, fun b hb => ?_, fun name h => every name ?_⟩
    · rcases some b hb with later | now
      · exact .inl (List.mem_cons_of_mem a later)
      · exact (mem_add now).elim (fun own => .inl (own ▸ List.mem_cons_self)) .inr
    · rw [names_add]
      simp only [List.map_cons, List.cons_append, List.mem_cons, List.mem_append] at h ⊢
      split
      · rename_i old
        rcases h with rfl | h
        · exact .inr old
        · exact h
      · simp only [List.mem_append, List.mem_singleton]
        tauto

/-! ### The schedule of an engine -/

/-- whether an engine has a linter that checks its rules by turns, as a schedule has them, and no other
analyzer with a schedule -/
def GoesBy (e : Engine) (schedule : Schedule) : Prop :=
  ∃ before a after, e.analyzers = before ++ a :: after ∧ a.TurnsBy schedule ∧
    (∀ b ∈ before, b.IsPlain) ∧ ∀ b ∈ after, b.IsPlain

/-- an engine of analyzers with different names, of which those that are no linter are plain -/
theorem goesBy_of_mem (apart : (e.analyzers.map (·.name)).Nodup) (ha : a ∈ e.analyzers)
    (turns : a.TurnsBy schedule)
    (plain : ∀ b ∈ e.analyzers, b.name ≠ Analyzer.linterName → b.schedule? = none) : e.GoesBy schedule := by
  obtain ⟨before, after, parts⟩ := List.append_of_mem ha
  rw [parts, List.map_append, List.map_cons] at apart
  have others := (List.nodup_cons.mp (List.nodup_middle.mp apart)).1
  rw [turns.1, List.mem_append, not_or] at others
  refine ⟨before, a, after, parts, turns, fun b hb => ?_, fun b hb => ?_⟩
  · have other : b.name ≠ Analyzer.linterName := fun same => others.1 (same ▸ List.mem_map_of_mem hb)
    exact ⟨other, plain b (parts ▸ List.mem_append_left _ hb) other⟩
  · have other : b.name ≠ Analyzer.linterName := fun same => others.2 (same ▸ List.mem_map_of_mem hb)
    exact ⟨other, plain b (parts ▸ List.mem_append_right _ (List.mem_cons_of_mem a hb)) other⟩

/-- settings under which the linter checks rules of some names by turns -/
structure LintsByTurns (settings : Settings) (names : List String) : Prop where
  enabled : ∃ how, (Analyzer.linterName, how) ∈ settings.engines ∧ how.enabled = true
  rules : ∀ how, (Analyzer.linterName, how) ∈ settings.engines →
    Analyzer.lintRules how.options = .ok (names.map .ofName)
  turns : ∀ how, (Analyzer.linterName, how) ∈ settings.engines → Analyzer.goesByTurns how.options = true

/-- the schedule of a linter that has not begun -/
def firstSchedule (scheduler : SchedulerSettings) (names : List String) : Schedule :=
  .start Analyzer.linterName scheduler.zeroThreshold scheduler.reducedInterval (names.map .ofName)

variable {settings : Settings} {names : List String} {runner : Runner}

/-- the built-in linter begins with its first schedule, which is sound -/
theorem builtIn_linter {how : AnalyzerSettings} {o : Option Analyzer} (byTurns : LintsByTurns settings names)
    (entry : (Analyzer.linterName, how) ∈ settings.engines)
    (h : builtIn settings runner Analyzer.linterName how = .ok o) :
    (firstSchedule settings.scheduler names).IsSound ∧
      ∃ a, o = some a ∧ a.TurnsBy (firstSchedule settings.scheduler names) := by
  unfold builtIn at h
  rw [if_neg (by decide), if_pos rfl] at h
  obtain ⟨a, made, rfl⟩ := map_eq_ok.mp h
  obtain ⟨state, started, rfl⟩ := map_eq_ok.mp made
  unfold Analyzer.LintState.start at started
  dsimp only at started
  split at started
  · cases started
  · rename_i positive
    obtain ⟨rules, hrules, started⟩ := bind_eq_ok.mp started
    rw [byTurns.rules how entry] at hrules
    cases hrules
    cases started
    simp only [Bool.or_eq_true, decide_eq_true_eq, not_or, not_lt] at positive
    have sound : (firstSchedule settings.scheduler names).IsSound :=
      .start _ _ (by omega) (by omega)
    exact ⟨sound, _, rfl, rfl, byTurns.turns how entry, runner, _, rfl⟩

/-- a built-in analyzer bears the name that it was asked for by; only the linter has a schedule -/
theorem builtIn_eq_some {name : String} {how : AnalyzerSettings}
    (h : builtIn settings runner name how = .ok (some a)) :
    a.name = name ∧ (name ≠ Analyzer.linterName → a.schedule? = none) := by
  unfold builtIn at h
  split at h
  · rename_i same
    cases h
    exact ⟨same.symm, fun _ => rfl⟩
  · split at h
    · rename_i same
      obtain ⟨b, made, some⟩ := map_eq_ok.mp h
      obtain ⟨state, -, rfl⟩ := map_eq_ok.mp made
      cases some
      exact ⟨same.symm, fun other => absurd same other⟩
    · split at h
      · rename_i same
        cases h
        exact ⟨same.symm, fun _ => rfl⟩
      · cases h

/-- an engine of the analyzers that settings enable goes by the first schedule of its linter -/
theorem goesBy_of_enabledAnalyzers (w : Analyzer.Workspace) (keeping : Option StoreSettings)
    {analyzers : List Analyzer} (byTurns : LintsByTurns settings names)
    (h : enabledAnalyzers settings runner = .ok analyzers) :
    (firstSchedule settings.scheduler names).IsSound ∧
      (Engine.of settings w keeping analyzers).GoesBy (firstSchedule settings.scheduler names) := by
  obtain ⟨made, every, h⟩ := bind_eq_ok.mp h
  obtain rfl : made.filterMap id = analyzers := by simpa [pure, Except.pure] using h
  -- what is made bears its name, and under the name of the linter goes by its first schedule
  have origin : ∀ a ∈ made.filterMap id, (a.name = Analyzer.linterName →
      a.TurnsBy (firstSchedule settings.scheduler names)) ∧
      (a.name ≠ Analyzer.linterName → a.schedule? = none) := by
    intro a ha
    obtain ⟨o, ho, rfl⟩ := List.mem_filterMap.mp ha
    obtain ⟨⟨name, how⟩, hentry, one⟩ := exists_of_mem_mapM every ho
    obtain ⟨rfl, plain⟩ := builtIn_eq_some one
    refine ⟨fun same => ?_, plain⟩
    rw [same] at hentry one
    obtain ⟨-, b, own, turns⟩ := builtIn_linter byTurns (List.mem_of_mem_filter hentry) one
    cases own
    exact turns
  obtain ⟨how, entry, enabled⟩ := byTurns.enabled
  obtain ⟨o, ho, one⟩ := exists_mem_mapM every (List.mem_filter.mpr ⟨entry, enabled⟩)
  obtain ⟨sound, a, rfl, turns⟩ := builtIn_linter byTurns entry one
  refine ⟨sound, ?_⟩
  obtain ⟨distinct, some, there⟩ :=
    foldl_add (e := ⟨settings, w, keeping, []⟩) (made.filterMap id) List.nodup_nil
  have added : ∀ b ∈ (Engine.of settings w keeping (made.filterMap id)).analyzers,
      b ∈ made.filterMap id := fun b hb => (some b hb).resolve_right List.not_mem_nil
  obtain ⟨b, hb, same⟩ := List.mem_map.mp
    (there a.name (List.mem_append_left _ (List.mem_map_of_mem (List.mem_filterMap.mpr ⟨_, ho, rfl⟩))))
  exact goesBy_of_mem distinct hb ((origin b (added b hb)).1 (same.trans turns.1))
    fun c hc => (origin c (added c hc)).2

/-! ### What becomes of the schedule -/

/-- an engine takes up what the store holds of its linter -/
theorem GoesBy.restore (h : e.GoesBy schedule) (keeping : e.keeping ≠ none) (taken : e.restore s = .ok e') :
    ∃ kept, loadSchedules Analyzer.linterName s = .ok kept ∧ e'.GoesBy (schedule.restore kept) := by
  obtain ⟨before, a, after, parts, ⟨name, byTurns, runner, rules, method⟩, plain, plain'⟩ := h
  have same : ∀ others : List Analyzer, (∀ b ∈ others, b.IsPlain) →
      others.mapM (restoreAnalyzer s) = .ok others := by
    intro others plain
    rw [mapM_congr fun b hb => ?_, mapM_ok]
    unfold restoreAnalyzer
    rw [(plain b hb).2]
  unfold Engine.restore at taken
  split at taken
  · contradiction
  · obtain ⟨analyzers, restored, taken⟩ := bind_eq_ok.mp taken
    cases taken
    rw [parts, List.mapM_append, same before plain] at restored
    obtain ⟨left, hleft, restored⟩ := bind_eq_ok.mp restored
    cases hleft
    obtain ⟨right, hright, restored⟩ := bind_eq_ok.mp restored
    cases restored
    rw [List.mapM_cons] at hright
    obtain ⟨a', ha, hright⟩ := bind_eq_ok.mp hright
    rw [same after plain'] at hright
    cases hright
    have own : a.schedule? = some schedule := by
      unfold Analyzer.schedule?
      rw [method]
    unfold restoreAnalyzer at ha
    rw [own, name] at ha
    obtain ⟨kept, loaded, rfl⟩ := map_eq_ok.mp ha
    refine ⟨kept, loaded, before, _, after, rfl, ?_, plain, plain'⟩
    unfold Analyzer.withSchedule
    rw [method]
    exact ⟨name, byTurns, runner, rules, rfl⟩

/-- the rule that the linter checks in the next analysis and what the check finds, if it checks one and the
check ends well -/
def answer? (e : Engine) (target : Option String) : Option (Rule × List Violation) :=
  e.analyzers.findSome? fun a => a.answer? e.workspace (target.getD e.settings.targetPath)

/-- an analysis is one cycle of the schedule, and has one report of it -/
theorem GoesBy.exists_check (h : e.GoesBy schedule) {found : Analysis}
    (ended : (e.analyze target).1 = .ok found) :
    ∃ check : Rule → Except Failure (List Violation), e.answer? target = schedule.answer? check ∧
      (e.analyze target).2.GoesBy (schedule.runCycle check).2 ∧
      ∃ r, found.reports.filter (fun r => r.engine = Analyzer.linterName) = [r] ∧
        Analyzer.TellsOfCycle r (schedule.runCycle check) := by
  obtain ⟨before, a, after, parts, turns, plain, plain'⟩ := h
  have none : ∀ others : List Analyzer, (∀ b ∈ others, b.IsPlain) →
      (others.findSome? fun b => b.answer? e.workspace (target.getD e.settings.targetPath)) = .none ∧
        others.filter (fun b => b.name = Analyzer.linterName) = [] := fun others plain =>
    ⟨List.findSome?_eq_none_iff.mpr fun b hb => (plain b hb).answer?_eq_none,
      List.filter_eq_nil_iff.mpr fun b hb => by simpa using (plain b hb).1⟩
  -- of the reports by priority only that of the linter bears its name
  have alone : e.ordered.filter (fun b => b.name = Analyzer.linterName) = [a] := by
    refine List.perm_singleton.mp (((List.mergeSort_perm _ _).filter _).trans (.of_eq ?_))
    rw [parts, List.filter_append, List.filter_cons_of_pos (by simpa using turns.1), (none before plain).2,
      (none after plain').2]
    rfl
  have reports := List.rel_filter
    (p := fun b : Analyzer => b.name = Analyzer.linterName) (q := fun r => r.engine = Analyzer.linterName)
    (fun b r ran => by simp [(Analyzer.execute_eq_ok ran).2.1]) (forall₂_reports ended)
  rw [alone] at reports
  obtain ⟨r, rest, ran, done, only⟩ := List.forall₂_cons_left_iff.mp reports
  cases done
  obtain ⟨check, answer, next, told⟩ := turns.execute ran
  let after' := fun b : Analyzer => (b.execute e.workspace (target.getD e.settings.targetPath) []).2
  refine ⟨check, ?_, ⟨before.map after', after' a, after.map after', ?_, next, fun b hb => ?_,
    fun b hb => ?_⟩, r, only, told⟩
  · unfold answer?
    rw [parts, List.findSome?_append, (none before plain).1, List.findSome?_cons, (none after plain').1, answer]
    cases schedule.answer? check <;> rfl
  · rw [analyze_snd, parts, List.map_append, List.map_cons]
  · obtain ⟨c, hc, rfl⟩ := List.mem_map.mp hb
    exact (plain c hc).execute
  · obtain ⟨c, hc, rfl⟩ := List.mem_map.mp hb
    exact (plain' c hc).execute

/-- if the report of the linter tells of findings, the check of the cycle may be taken for one that always
answers, and the report bears the rule that it was about -/
theorem GoesBy.analyze (h : e.GoesBy schedule) {found : Analysis} (ended : (e.analyze target).1 = .ok found) :
    ∃ check : Rule → Except Failure (List Violation),
      (e.analyze target).2.GoesBy (schedule.runCycle check).2 ∧
        ∀ r ∈ found.reports, r.engine = Analyzer.linterName → r.success = true →
          Schedule.Answers check ∧ r.checkedRule? = (schedule.runCycle check).2.lastRule.map (·.value) := by
  obtain ⟨check, -, next, report, only, told⟩ := h.exists_check ended
  have alone : ∀ r ∈ found.reports, r.engine = Analyzer.linterName → r = report := fun r hr engine =>
    List.mem_singleton.mp (only ▸ List.mem_filter.mpr ⟨hr, decide_eq_true engine⟩)
  cases success : report.success with
  | false =>
    refine ⟨check, next, fun r hr engine succeeds => ?_⟩
    rw [alone r hr engine, success] at succeeds
    cases succeeds
  | true =>
    obtain ⟨p, answer, -, last⟩ := told success
    obtain ⟨check', same, answers⟩ := Schedule.exists_answers answer
    exact ⟨check', same ▸ next, fun r hr engine _ => ⟨answers, by rw [same, alone r hr engine, last]⟩⟩

/-- the work of saving the schedule of an analyzer, if it has one -/
def saving (a : Analyzer) : ExceptT Failure (StateM Store) Unit :=
  match a.schedule? with
  | some schedule => commitChange (Store.saveSchedules (.int a.settings.priority)
      (schedule.saved.map ScheduleEntry.ofSaved))
  | none => pure ()

/-- nothing is saved of plain analyzers -/
theorem eq_of_yields_saving {others : List Analyzer} (plain : ∀ b ∈ others, b.IsPlain)
    (saved : Yields (others.forM saving) s () t) : s = t := by
  induction others generalizing s with
  | nil => exact (yields_pure.mp saved).2
  | cons b rest ih =>
    obtain ⟨_, mid, one, later⟩ := yields_bind.mp saved
    unfold saving at one
    rw [(plain b List.mem_cons_self).2] at one
    obtain ⟨-, rfl⟩ := yields_pure.mp one
    exact ih (fun c hc => plain c (List.mem_cons_of_mem b hc)) later

/-- what is saved of an engine is its schedule -/
theorem GoesBy.saveSchedules (h : e.GoesBy schedule) (saved : Yields e.saveSchedules s () t) :
    ∃ priority, Store.saveSchedules priority (schedule.saved.map .ofSaved) s = .ok t := by
  obtain ⟨before, a, after, parts, ⟨-, -, runner, rules, method⟩, plain, plain'⟩ := h
  have whole : e.saveSchedules = e.analyzers.forM saving := rfl
  rw [whole, parts, List.forM_eq_forM, List.forM_append, List.forM_cons] at saved
  obtain ⟨_, s', done, saved⟩ := yields_bind.mp saved
  obtain ⟨_, t', own, done'⟩ := yields_bind.mp saved
  obtain rfl := eq_of_yields_saving plain done
  obtain rfl := eq_of_yields_saving plain' done'
  unfold saving Analyzer.schedule? at own
  rw [method] at own
  exact ⟨_, yields_commitChange.mp own⟩

end Engine

end LintLedger
