import LintLedger.Proofs.Engine.Counted
import LintLedger.Proofs.Engine.Restart
import LintLedger.Proofs.Store.Matches
import Mathlib

/-!
# Backing off while analyzers come and go

An engine is *in step* with a store if the schedules of its analyzers know what the enabled rows of the store say,
but for rows of rules that were checked since all schedules were last saved (`InStep`).  An engine that has taken up
what is kept is in step (`inStep_of_restore`).  It stays so when an analyzer is removed, when a target is analyzed
(`InStep.analyze`) and when its schedules are saved (`InStep.saveSchedules`), and so through all of its cycles
(`InStep.cycle`).  Adding an analyzer takes up nothing: the engine stays in step if the new schedule happens to know
what is kept (`InStep.add`); a schedule that has not begun does not, and the next cycle writes its numbers over those
that were kept (`forgotten_by_new_linter`).
-/

namespace LintLedger

open Outcome

/-! ### Analyzers with schedules -/

namespace Analyzer

variable {w : Workspace} {a b : Analyzer} {target : String} {schedule after : Schedule} {r : ScheduleRow} {s : Store}
  {rows : List ScheduleRow}

/-- whether the schedule of an analyzer, if it has one, is kept under its name, by the names of its rules -/
def IsFit (a : Analyzer) : Prop := ∀ schedule, a.schedule? = some schedule → schedule.Serves a.name

/-- whether the schedule of an analyzer, if it has one, knows what a row says -/
def Knows (a : Analyzer) (r : ScheduleRow) : Prop := ∀ schedule, a.schedule? = some schedule → schedule.Matches r

/-- the rule that a run checks, if it checks one by turns and the check ends well -/
def checked? (w : Workspace) (a : Analyzer) (target : String) : Option Rule :=
  if target.toList.contains '\x00' then none
  else if goesByTurns (a.optionsWith []) then (a.answer? w target).map Prod.fst
  else none

/-- an analyzer with a schedule is a linter -/
theorem exists_linter (own : a.schedule? = some schedule) :
    ∃ runner state, a.method = .linter runner state ∧ state.schedule = schedule := by
  unfold schedule? at own
  split at own
  · rename_i runner state method
    exact ⟨runner, state, method, Option.some.inj own⟩
  · cases own

/-- the schedule of an analyzer after a run is the one that it had, or has gone through a cycle -/
theorem exists_of_schedule?_execute (later : (a.execute w target []).2.schedule? = some after) :
    ∃ schedule, a.schedule? = some schedule ∧ (after = schedule ∨
      ∃ check : Rule → Except Failure (List Violation), after = (schedule.runCycle check).2 ∧
        a.checked? w target = (schedule.answer? check).map Prod.fst) := by
  obtain ⟨schedule, own⟩ : ∃ schedule, a.schedule? = some schedule := by
    refine Option.ne_none_iff_exists'.mp fun none => ?_
    rw [schedule?_execute_eq_none none] at later
    cases later
  refine ⟨schedule, own, ?_⟩
  obtain ⟨runner, state, method, rfl⟩ := exists_linter own
  by_cases named : '\x00' ∈ target.toList
  · rw [execute_snd_of_unnamed named, own] at later
    exact .inl (Option.some.inj later).symm
  rw [execute_snd_eq_find named, find_linter w (placeOf w target) (a.optionsWith []) method,
    schedule?_of_linter rfl] at later
  by_cases turns : goesByTurns (a.optionsWith []) = true
  · rw [(runLinter_of_goesByTurns w runner (placeOf w target) state turns).2] at later
    refine .inr ⟨_, (Option.some.inj later).symm, ?_⟩
    unfold checked? answer?
    rw [if_neg (by simpa using named), if_pos turns, method]
  · rw [(runLinter_of_not_goesByTurns turns).2] at later
    exact .inl (Option.some.inj later).symm

theorem IsFit.execute (fit : a.IsFit) : (a.execute w target []).2.IsFit := by
  intro after later
  rw [name_execute]
  obtain ⟨schedule, own, rfl | ⟨check, rfl, -⟩⟩ := exists_of_schedule?_execute later
  · exact fit after own
  · exact (fit schedule own).runCycle check

/-- what an analyzer knows of rules it knows after a run as well, but of the one that the run checks -/
theorem Knows.execute (h : a.Knows r) (fit : a.IsFit)
    (other : ∀ q ∈ a.checked? w target, Store.rowKey r ≠ (q.key, .text a.name)) :
    (a.execute w target []).2.Knows r := by
  intro after later
  obtain ⟨schedule, own, rfl | ⟨check, rfl, asked⟩⟩ := exists_of_schedule?_execute later
  · exact h after own
  · refine (h schedule own).runCycle fun p answer => ?_
    rw [(fit schedule own).engine]
    exact other p.1 (by rw [asked, Option.mem_def.mp answer]; rfl)

theorem name_withSchedule (a : Analyzer) (schedule : Schedule) : (a.withSchedule schedule).name = a.name := by
  unfold withSchedule
  split <;> rfl

theorem name_restoreAnalyzer (taken : Engine.restoreAnalyzer s a = .ok b) : b.name = a.name := by
  unfold Engine.restoreAnalyzer at taken
  split at taken
  · obtain ⟨kept, -, rfl⟩ := map_eq_ok.mp taken
    exact name_withSchedule a _
  · cases taken
    rfl

/-- an analyzer that has taken up what is kept of its schedule knows what is kept -/
theorem knows_of_restoreAnalyzer (fit : a.IsFit) (table : s.schedules = some rows)
    (distinct : (rows.map Store.rowKey).Nodup) (taken : Engine.restoreAnalyzer s a = .ok b) :
    b.IsFit ∧ ∀ r ∈ rows, r.enabled = true → b.Knows r := by
  unfold Engine.restoreAnalyzer at taken
  cases own : a.schedule? with
  | none =>
    rw [own] at taken
    cases taken
    refine ⟨fit, fun r _ _ schedule some => ?_⟩
    rw [own] at some
    cases some
  | some schedule =>
    rw [own] at taken
    obtain ⟨kept, loaded, rfl⟩ := map_eq_ok.mp taken
    obtain ⟨runner, state, method, rfl⟩ := exists_linter own
    have serves := fit _ own
    have later := schedule?_of_linter (method_withSchedule method (state.schedule.restore kept))
    have all : kept =
        (rows.filter fun r => r.engine = state.schedule.engine && r.enabled).map ScheduleRow.saved := by
      unfold Store.loadSchedules at loaded
      rw [table] at loaded
      rw [serves.engine]
      exact (Except.ok.inj loaded).symm
    refine ⟨fun t now => ?_, fun r hr enabled t now => ?_⟩
    · cases later.symm.trans now
      rw [name_withSchedule]
      exact serves.restore kept
    · cases later.symm.trans now
      rw [all]
      exact Schedule.matches_restore distinct hr enabled

end Analyzer

namespace Engine

open Store

variable {k : StoreSettings} {e e' : Engine} {a b : Analyzer} {as bs : List Analyzer} {s t : Store}
  {rows old : List ScheduleRow} {r : ScheduleRow} {p : ScheduleRow → Prop} {late : List EntryKey} {found : Analysis}
  {clock : Clock} {target : Option String} {c : Cycle}

/-! ### Saving schedules -/

/-- whether no two of some rows have one key, and analyzers know those of a kind -/
structure AreKnown (as : List Analyzer) (p : ScheduleRow → Prop) (rows : List ScheduleRow) : Prop where
  distinct : (rows.map rowKey).Nodup
  knows : ∀ a ∈ as, ∀ r ∈ rows, p r → a.Knows r

/-- whether analyzers know the rows of a table that are of a kind, among which are all of that kind that were there -/
def KeepsKnown (as : List Analyzer) (p : ScheduleRow → Prop) (old : List ScheduleRow) (table : Table ScheduleRow) :
    Prop :=
  ∃ rows, table = some rows ∧ AreKnown as p rows ∧ ∀ r ∈ old, p r → r ∈ rows

/-- saving the schedule of an analyzer leaves the rows that it knows, and then it knows all; of a row that is new
any other analyzer knows all there is -/
theorem exists_of_saving (fit : a.IsFit) (table : s.schedules = some rows) (distinct : (rows.map rowKey).Nodup)
    (saved : Yields (saving a) s () t) :
    ∃ rows', t.schedules = some rows' ∧ (rows'.map rowKey).Nodup ∧ (∀ r ∈ rows', a.Knows r) ∧
      (∀ r ∈ rows, a.Knows r → r ∈ rows') ∧
      ∀ b : Analyzer, b.IsFit → b.name ≠ a.name → ∀ r ∈ rows', b.Knows r ∨ r ∈ rows := by
  unfold saving at saved
  cases own : a.schedule? with
  | none =>
    rw [own] at saved
    obtain ⟨-, rfl⟩ := yields_pure.mp saved
    refine ⟨rows, table, distinct, fun r _ schedule some => ?_, fun r hr _ => hr, fun _ _ _ r hr => .inr hr⟩
    rw [own] at some
    cases some
  | some schedule =>
    rw [own] at saved
    obtain ⟨rows', table', distinct', knows, kept, others⟩ :=
      saveSchedules_matches (fit _ own) table distinct (yields_commitChange.mp saved)
    refine ⟨rows', table', distinct', fun r hr t now => ?_, fun r hr knows => kept r hr (knows _ own),
      fun b fit' other r hr => ?_⟩
    · cases own.symm.trans now
      exact knows r hr
    · -- a schedule knows all there is of the rows of other engines
      by_cases engine : r.engine = a.name
      · exact .inl fun t now same => absurd (same.symm.trans engine) ((fit' t now).engine ▸ other)
      · exact .inr (others r hr engine)

/-- what analyzers know of rows they know once one of them has been saved as well -/
theorem saving_keepsKnown (fit : ∀ b ∈ as, b.IsFit) (apart : (as.map (·.name)).Nodup) (ha : a ∈ as) :
    Preserves (fun s => KeepsKnown as p old s.schedules) (saving a) := by
  cases own : a.schedule? with
  | none =>
    unfold saving
    rw [own]
    exact .pure ()
  | some schedule =>
    have work : saving a = commitChange (Store.saveSchedules (.int a.settings.priority)
        (schedule.saved.map ScheduleEntry.ofSaved)) := by
      unfold saving
      rw [own]
    rw [work]
    refine .commitChange fun s t ⟨rows, table, ⟨distinct, knows⟩, kept⟩ done => ?_
    obtain ⟨rows', table', distinct', all, left, others⟩ :=
      exists_of_saving (fit a ha) table distinct (work ▸ yields_commitChange.mpr done)
    refine ⟨rows', table', ⟨distinct', fun b hb r hr kind => ?_⟩, fun r hr kind => ?_⟩
    · by_cases same : b.name = a.name
      · obtain rfl := List.inj_on_of_nodup_map apart hb ha same
        exact all r hr
      · exact (others b (fit b hb) same r hr).elim id fun before => knows b hb r before kind
    · exact left r (kept r hr kind) (knows a ha r (kept r hr kind) kind)

/-- analyzers that are saved one after another know all rows then -/
theorem areKnown_of_forM_saving (fit : ∀ a ∈ as ++ bs, a.IsFit) (apart : ((as ++ bs).map (·.name)).Nodup)
    (table : s.schedules = some rows) (known : AreKnown as (fun _ => True) rows)
    (saved : Yields (bs.forM saving) s () t) :
    ∃ rows', t.schedules = some rows' ∧ AreKnown (as ++ bs) (fun _ => True) rows' := by
  induction bs generalizing as s rows with
  | nil =>
    obtain ⟨-, rfl⟩ := yields_pure.mp saved
    rw [List.append_nil]
    exact ⟨rows, table, known⟩
  | cons a rest ih =>
    obtain ⟨_, mid, one, later⟩ := yields_bind.mp saved
    obtain ⟨rows', table', distinct, all, -, others⟩ :=
      exists_of_saving (fit a (List.mem_append_right _ List.mem_cons_self)) table known.distinct one
    have new : ∀ b ∈ as, b.name ≠ a.name := by
      rw [List.map_append, List.map_cons, List.nodup_append] at apart
      exact fun b hb => apart.2.2 _ (List.mem_map_of_mem hb) _ List.mem_cons_self
    rw [List.append_cons] at fit apart ⊢
    refine ih fit apart table' ⟨distinct, fun b hb r hr _ => ?_⟩ later
    rcases List.mem_append.mp hb with before | own
    · have fit' := fit b (List.mem_append_left _ hb)
      exact (others b fit' (new b before) r hr).elim id fun old => known.knows b before r old trivial
    · exact List.mem_singleton.mp own ▸ all r hr

/-! ### Engines in step -/

/-- whether a row is of an enabled rule with another key than some -/
def IsCurrent (late : List EntryKey) (r : ScheduleRow) : Prop := r.enabled = true ∧ rowKey r ∉ late

/-- whether the schedules of an engine know what the store keeps of enabled rules, but for some -/
structure InStep (e : Engine) (s : Store) (late : List EntryKey) : Prop where
  apart : (e.analyzers.map (·.name)).Nodup
  fit : ∀ a ∈ e.analyzers, a.IsFit
  table : ∃ rows, s.schedules = some rows ∧ AreKnown e.analyzers (IsCurrent late) rows

/-- the keys of the rules that an analysis checks -/
def checked (target : Option String) (e : Engine) : List EntryKey :=
  e.analyzers.filterMap fun a =>
    (a.checked? e.workspace (target.getD e.settings.targetPath)).map fun q => (q.key, .text a.name)

/-- an engine whose analyzers have taken up what is kept is in step -/
theorem inStep_of_restore (apart : (e.analyzers.map (·.name)).Nodup) (fit : ∀ a ∈ e.analyzers, a.IsFit)
    (keeping : e.keeping = some k) (table : s.schedules = some rows) (distinct : (rows.map rowKey).Nodup)
    (restored : e.restore s = .ok e') : e'.InStep s [] := by
  unfold Engine.restore at restored
  rw [keeping] at restored
  obtain ⟨analyzers, taken, restored⟩ := bind_eq_ok.mp restored
  cases restored
  have each : ∀ b ∈ analyzers, b.IsFit ∧ ∀ r ∈ rows, r.enabled = true → b.Knows r := by
    intro b hb
    obtain ⟨a, ha, one⟩ := exists_of_mem_mapM taken hb
    exact Analyzer.knows_of_restoreAnalyzer (fit a ha) table distinct one
  have names : analyzers.map (·.name) = e.analyzers.map (·.name) :=
    map_of_mapM (fun _ _ => Analyzer.name_restoreAnalyzer) taken
  exact ⟨names ▸ apart, fun b hb => (each b hb).1, rows, table, distinct, fun b hb r hr current =>
    (each b hb).2 r hr current.1⟩

theorem InStep.remove {name : String} (h : e.InStep s late) (removed : e.remove? name = some e') :
    e'.InStep s late := by
  unfold remove? at removed
  split at removed
  · cases removed
    obtain ⟨rows, table, distinct, knows⟩ := h.table
    exact ⟨h.apart.sublist (List.filter_sublist.map _), fun a ha => h.fit a (List.mem_of_mem_filter ha), rows, table,
      distinct, fun a ha => knows a (List.mem_of_mem_filter ha)⟩
  · cases removed

/-- adding an analyzer that knows what is kept leaves an engine in step -/
theorem InStep.add (h : e.InStep s late) (fit : a.IsFit)
    (knows : ∀ rows, s.schedules = some rows → ∀ r ∈ rows, IsCurrent late r → a.Knows r) :
    (e.add a).InStep s late := by
  obtain ⟨rows, table, distinct, known⟩ := h.table
  refine ⟨(foldl_add [a] h.apart).1, fun b hb => ?_, rows, table, distinct, fun b hb => ?_⟩
  · exact (mem_add hb).elim (fun own => own ▸ fit) (h.fit b)
  · exact (mem_add hb).elim (fun own => own ▸ knows rows table) (known b)

theorem mem_checked {q : Rule} (ha : a ∈ e.analyzers)
    (h : a.checked? e.workspace (target.getD e.settings.targetPath) = some q) :
    (q.key, .text a.name) ∈ e.checked target :=
  List.mem_filterMap.mpr ⟨a, ha, by rw [h]; rfl⟩

/-- an analysis leaves an engine in step but for the rules that it checks -/
theorem InStep.analyze (h : e.InStep s late) (target : Option String) :
    (e.analyze target).2.InStep s (e.checked target ++ late) := by
  obtain ⟨rows, table, distinct, knows⟩ := h.table
  have same : (e.analyze target).2.analyzers = _ := congrArg Engine.analyzers (analyze_snd e target)
  refine ⟨?_, fun b hb => ?_, rows, table, distinct, fun b hb r hr current => ?_⟩
  · have names : (e.analyzers.map fun a => (a.execute e.workspace (target.getD e.settings.targetPath) []).2).map
        (·.name) = e.analyzers.map (·.name) := by
      rw [List.map_map]
      exact List.map_congr_left fun a _ => Analyzer.name_execute
    rw [same, names]
    exact h.apart
  · obtain ⟨a, ha, rfl⟩ := List.mem_map.mp (same ▸ hb)
    exact (h.fit a ha).execute
  · obtain ⟨a, ha, rfl⟩ := List.mem_map.mp (same ▸ hb)
    obtain ⟨enabled, new⟩ := current
    rw [List.mem_append, not_or] at new
    exact (knows a ha r hr ⟨enabled, new.2⟩).execute (h.fit a ha) fun q asked own =>
      new.1 (own ▸ mem_checked ha asked)

/-! ### What a cycle leaves of the table -/

/-- work that leaves the table of schedules alone preserves what is said of the table -/
theorem preserves_of_schedules {α : Type} {Q : Table ScheduleRow → Prop} {m : Work α}
    (h : ∀ rows, Preserves (ofStore (HasSchedules rows)) m) : Preserves (ofStore fun s => Q s.schedules) m := by
  intro x start
  have same : (m.run.run x).2.1.schedules = x.1.schedules := h x.1.schedules x rfl
  change Q (m.run.run x).2.1.schedules
  rw [same]
  exact start

theorem markFailed_schedules {check : Int} {f : Failure} {rows : Table ScheduleRow} :
    Preserves (ofStore (HasSchedules rows)) (markFailed check f) := by
  unfold markFailed
  refine .tryCatch (.timed fun now => failCheck_schedules) fun g => ?_
  split
  · exact .pure _
  · exact .throw g

/-- keeping an analysis preserves what is said of the table if saving the schedules does, even if it fails -/
theorem keep_schedules {Q : Table ScheduleRow → Prop}
    (saves : Preserves (fun s => Q s.schedules) e.saveSchedules) :
    Preserves (ofStore fun s => Q s.schedules) (e.keep k found) := by
  unfold keep
  refine .bind (preserves_of_schedules fun _ => .timed fun _ => startCheck_schedules) fun check => ?_
  refine .bind (.tryCatch (preserves_of_schedules fun _ => recordAnalysis_schedules) fun f => ?_) fun done => ?_
  · dsimp only
    split
    · exact .bind (preserves_of_schedules fun _ => markFailed_schedules) fun _ => .throw f
    · exact .throw f
  · refine .bind (preserves_of_schedules fun _ => .timed fun _ => completeCheck_schedules) fun _ => ?_
    exact .bind (.untimed saves) fun _ => .pure _

/-- a cycle does nothing at all, or, however it ends, leaves the engine as the analysis does, and what is said of the
table if saving the schedules preserves it -/
theorem cycle_schedules {Q : Table ScheduleRow → Prop} (h : Q s.schedules)
    (saves : Preserves (fun s => Q s.schedules) (e.analyze target).2.saveSchedules) :
    (e.cycle clock target s).2 = (e, s) ∨
      (e.cycle clock target s).2.1 = (e.analyze target).2 ∧ Q (e.cycle clock target s).2.2.schedules := by
  unfold cycle
  cases e.keeping with
  | none => exact .inl rfl
  | some k =>
    rcases ran : e.analyze target with ⟨f | found, after⟩
    · exact .inr ⟨rfl, h⟩
    · rw [ran] at saves
      exact .inr ⟨rfl, keep_schedules saves (s, clock) h⟩

theorem InStep.congr (h : e.InStep s late) (same : t.schedules = s.schedules) : e.InStep t late := by
  obtain ⟨rows, table, known⟩ := h.table
  exact ⟨h.apart, h.fit, rows, same.trans table, known⟩

theorem InStep.mono {more : List EntryKey} (h : e.InStep s late) (subset : ∀ key ∈ late, key ∈ more) :
    e.InStep s more := by
  obtain ⟨rows, table, distinct, knows⟩ := h.table
  exact ⟨h.apart, h.fit, rows, table, distinct, fun a ha r hr current =>
    knows a ha r hr ⟨current.1, fun old => current.2 (subset _ old)⟩⟩

/-- saving the schedules, however it ends, leaves the rows of which an engine in step knows, and the engine knows of
them -/
theorem InStep.saving_keepsKnown (h : e.InStep s late) :
    Preserves (fun t => KeepsKnown e.analyzers (IsCurrent late) old t.schedules) e.saveSchedules :=
  .forM fun _ ha => Engine.saving_keepsKnown h.fit h.apart ha

theorem InStep.saveSchedules (h : e.InStep s late) : e.InStep (e.saveSchedules.run.run s).2 late := by
  obtain ⟨rows, table, known⟩ := h.table
  have after : KeepsKnown e.analyzers (IsCurrent late) [] (e.saveSchedules.run.run s).2.schedules :=
    h.saving_keepsKnown s ⟨rows, table, known, fun _ hr => absurd hr List.not_mem_nil⟩
  obtain ⟨rows', table', known', -⟩ := after
  exact ⟨h.apart, h.fit, rows', table', known'⟩

/-- once its schedules have been saved, an engine is in step without exception -/
theorem InStep.saved (h : e.InStep s late) (saved : Yields e.saveSchedules s () t) : e.InStep t [] := by
  obtain ⟨rows, table, distinct, -⟩ := h.table
  have whole : e.saveSchedules = e.analyzers.forM saving := rfl
  rw [whole] at saved
  have none : AreKnown [] (fun _ => True) rows := ⟨distinct, fun _ ha => absurd ha List.not_mem_nil⟩
  obtain ⟨rows', table', distinct', knows⟩ :=
    @areKnown_of_forM_saving [] e.analyzers s t rows h.fit h.apart table none saved
  exact ⟨h.apart, h.fit, rows', table', distinct', fun a ha r hr _ => knows a ha r hr trivial⟩

/-- however a cycle ends, its engine stays in step but for the rules that it checked, and the rows of which it knew
are kept but for theirs -/
theorem InStep.cycle (h : e.InStep s late) (table : s.schedules = some rows) (clock : Clock) (target : Option String) :
    (e.cycle clock target s).2.1.InStep (e.cycle clock target s).2.2 (e.checked target ++ late) ∧
      ∃ rows', (e.cycle clock target s).2.2.schedules = some rows' ∧
        ∀ r ∈ rows, IsCurrent (e.checked target ++ late) r → r ∈ rows' := by
  have after := h.analyze target
  have start : KeepsKnown (e.analyze target).2.analyzers (IsCurrent (e.checked target ++ late)) rows s.schedules := by
    obtain ⟨rows', table', known⟩ := after.table
    cases table.symm.trans table'
    exact ⟨rows, table, known, fun r hr _ => hr⟩
  rcases @cycle_schedules e s clock target _ start after.saving_keepsKnown with
    same | ⟨same, rows', table', known, kept⟩
  · rw [same]
    exact ⟨h.mono fun key old => List.mem_append_right _ old, rows, table, fun r hr _ => hr⟩
  · rw [same]
    exact ⟨⟨after.apart, after.fit, rows', table', known⟩, rows', table', kept⟩

/-- a cycle that ends well leaves its engine in step without exception -/
theorem InStep.cycle_of_eq_ok (h : e.InStep s late) (ended : (e.cycle clock target s).1 = .ok c) :
    (e.cycle clock target s).2.1.InStep (e.cycle clock target s).2.2 [] := by
  obtain ⟨-, mid, same, saved⟩ := cycle_saves ended
  rw [cycle_snd_of_eq_ok ended]
  exact ((h.analyze target).congr same).saved saved

/-! ### Whole lives of engines -/

/-- the engines that come about over a store, with the keys of the rules that have been checked since all schedules
were last saved: an engine is built of fit analyzers and takes up what is kept; analyzers are removed, and fit ones
that know what is kept are added; targets are analyzed, cycles run and schedules saved, whether that ends well or
not; and the store changes elsewhere -/
inductive Led : Engine → Store → List EntryKey → Prop
  | built {settings : Settings} {w : Analyzer.Workspace} {k : StoreSettings} {as : List Analyzer} {e : Engine}
      {s : Store} {rows : List ScheduleRow} (fit : ∀ a ∈ as, a.IsFit) (table : s.schedules = some rows)
      (distinct : (rows.map rowKey).Nodup) (restored : (Engine.of settings w (some k) as).restore s = .ok e) :
      Led e s []
  | removed {e e' : Engine} {s : Store} {late : List EntryKey} {name : String} (before : Led e s late)
      (done : e.remove? name = some e') : Led e' s late
  | added {e : Engine} {s : Store} {late : List EntryKey} {a : Analyzer} (before : Led e s late) (fit : a.IsFit)
      (knows : ∀ rows, s.schedules = some rows → ∀ r ∈ rows, IsCurrent late r → a.Knows r) : Led (e.add a) s late
  | analyzed {e : Engine} {s : Store} {late : List EntryKey} (target : Option String) (before : Led e s late) :
      Led (e.analyze target).2 s (e.checked target ++ late)
  | cycled {e : Engine} {s : Store} {late : List EntryKey} {clock : Clock} {target : Option String} {c : Cycle}
      (before : Led e s late) (ended : (e.cycle clock target s).1 = .ok c) :
      Led (e.cycle clock target s).2.1 (e.cycle clock target s).2.2 []
  | failed {e : Engine} {s : Store} {late : List EntryKey} {clock : Clock} {target : Option String} {f : Failure}
      (before : Led e s late) (ended : (e.cycle clock target s).1 = .error f) :
      Led (e.cycle clock target s).2.1 (e.cycle clock target s).2.2 (e.checked target ++ late)
  | saved {e : Engine} {s t : Store} {late : List EntryKey} (before : Led e s late)
      (done : Yields e.saveSchedules s () t) : Led e t []
  | unsaved {e : Engine} {s : Store} {late : List EntryKey} {f : Failure} (before : Led e s late)
      (ended : (e.saveSchedules.run.run s).1 = .error f) : Led e (e.saveSchedules.run.run s).2 late
  | elsewhere {e : Engine} {s t : Store} {late : List EntryKey} (before : Led e s late)
      (same : t.schedules = s.schedules) : Led e t late

theorem Led.inStep (h : Led e s late) : e.InStep s late := by
  induction h with
  | @built settings w k as e s rows fit table distinct restored =>
    obtain ⟨apart, origin, -⟩ := foldl_add (e := ⟨settings, w, some k, []⟩) as List.nodup_nil
    have keeping : (Engine.of settings w (some k) as).keeping = some k := keeping_foldl_add as
    exact inStep_of_restore apart (fun a ha => fit a ((origin a ha).resolve_right List.not_mem_nil)) keeping table
      distinct restored
  | removed _ done ih => exact ih.remove done
  | added _ fit knows ih => exact ih.add fit knows
  | analyzed target _ ih => exact ih.analyze target
  | cycled _ ended ih => exact ih.cycle_of_eq_ok ended
  | failed _ _ ih =>
    obtain ⟨rows, table, -⟩ := ih.table
    exact (ih.cycle table _ _).1
  | saved _ done ih => exact ih.saved done
  | unsaved _ _ ih => exact ih.saveSchedules
  | elsewhere _ same ih => exact ih.congr same

/-- **Backing off while analyzers come and go.** In the whole life of an engine in which no analyzer is added that
does not know what is kept, each schedule knows of each of its rules what the row of the rule says, and each cycle,
however it ends, leaves that row as it is unless it checks the rule.  This is said of the rules that are enabled and
were not checked since all schedules were last saved. -/
theorem Led.keeps_backoff (h : Led e s late) (table : s.schedules = some rows) :
    (∀ a ∈ e.analyzers, ∀ schedule, a.schedule? = some schedule → ∀ r ∈ rows, r.enabled = true → rowKey r ∉ late →
      r.engine = a.name → ∀ d ∈ schedule.states, d.rule.key = .text r.rule →
        d.zeroStreak = r.zeroStreak ∧ d.lastChecked = r.lastChecked) ∧
      ∀ clock target, ∃ rows', (e.cycle clock target s).2.2.schedules = some rows' ∧
        ∀ r ∈ rows, r.enabled = true → rowKey r ∉ late → rowKey r ∉ e.checked target → r ∈ rows' := by
  have step := h.inStep
  obtain ⟨rows', table', -, knows⟩ := step.table
  cases table.symm.trans table'
  refine ⟨fun a ha schedule own r hr enabled new engine d hd key => ?_, fun clock target => ?_⟩
  · exact knows a ha r hr ⟨enabled, new⟩ schedule own (engine.trans (step.fit a ha schedule own).engine.symm) d hd key
  · obtain ⟨-, rows', table', kept⟩ := step.cycle table clock target
    refine ⟨rows', table', fun r hr enabled new unchecked => kept r hr ⟨enabled, fun old => ?_⟩⟩
    exact (List.mem_append.mp old).elim unchecked new

/-! ### A linter that is taken out and put back -/

/-- a linter of rules with names is fit -/
theorem isFit_of_linter {how : AnalyzerSettings} {runner : Runner} {names : List String} {threshold interval : Int}
    (listed : Analyzer.lintRules how.options = .ok (names.map .ofName))
    (made : Analyzer.linter how runner threshold interval = .ok a) : a.IsFit := by
  obtain ⟨rules, threshold', interval', listed', positive, positive', rfl⟩ := Analyzer.exists_of_linter_eq_ok made
  cases listed.symm.trans listed'
  intro schedule own
  cases own
  refine ⟨.start _ _ positive positive', rfl, fun e he => ?_⟩
  have mem : e.rule ∈ (Schedule.start Analyzer.linterName threshold' interval' (names.map .ofName)).rules :=
    List.mem_map_of_mem he
  obtain ⟨name, -, same⟩ := List.mem_map.mp (Schedule.mem_of_mem_rules_start mem)
  exact ⟨name, same.symm⟩

/-- the analyzers that settings enable are fit if the rules of the linter bear names -/
theorem isFit_of_enabledAnalyzers {settings : Settings} {runner : Runner} {names : List String}
    (listed : ∀ how, (Analyzer.linterName, how) ∈ settings.engines →
      Analyzer.lintRules how.options = .ok (names.map .ofName))
    (h : enabledAnalyzers settings runner = .ok as) : ∀ a ∈ as, a.IsFit := by
  obtain ⟨made, every, h⟩ := bind_eq_ok.mp h
  obtain rfl : made.filterMap id = as := by simpa [pure, Except.pure] using h
  intro a ha
  obtain ⟨o, ho, rfl⟩ := List.mem_filterMap.mp ha
  obtain ⟨⟨name, how⟩, entry, one⟩ := exists_of_mem_mapM every ho
  by_cases linter : name = Analyzer.linterName
  · subst linter
    unfold builtIn at one
    rw [if_neg (show Analyzer.linterName ≠ Analyzer.compilerName by decide), if_pos rfl] at one
    obtain ⟨a', made', same⟩ := map_eq_ok.mp one
    cases same
    exact isFit_of_linter (listed how (List.mem_of_mem_filter entry)) made'
  · intro schedule own
    rw [(builtIn_eq_some one).2 linter] at own
    cases own

/-- an engine from which the linter is removed, and to which an analyzer is added then -/
def exchanged (a : Analyzer) (e : Engine) : Option Engine := (e.remove? Analyzer.linterName).map (·.add a)

/-- what is kept of the second of two rules -/
def secondRow : ScheduleRow := ⟨2, "b", "eslint", true, 1, 1, 2⟩

/-- a linter that is removed and added again knows what is kept; the next cycle checks the first rule, and what is
kept of the second stays -/
theorem keeps_backoff_put_back : ∃ e a e' rows, silentEngine ⟨1, 2⟩ backedOff = .ok e ∧ e.analyzers = [a] ∧
    e.exchanged a = some e' ∧ e'.checked none = [(.text "a", .text "eslint")] ∧
    (e'.cycle (.still ⟨1⟩) none backedOff).2.2.schedules = some rows ∧ secondRow ∈ rows := by
  have told : ((silentEngine ⟨1, 2⟩ backedOff).toOption.bind fun e => e.analyzers.head?.bind fun a =>
      (e.exchanged a).map fun e' => (e.analyzers.length, e'.checked none)) =
        some (1, [(.text "a", .text "eslint")]) := by
    decide +kernel
  obtain ⟨e, begun, told⟩ := Option.bind_eq_some_iff.mp told
  obtain ⟨a, ha, told⟩ := Option.bind_eq_some_iff.mp told
  obtain ⟨e', exchange, told⟩ := Option.map_eq_some_iff.mp told
  obtain ⟨single, asked⟩ := Prod.mk.inj told
  obtain ⟨_, same⟩ := List.length_eq_one_iff.mp single
  rw [same] at ha
  cases ha
  have mem : a ∈ e.analyzers := same ▸ List.mem_singleton_self a
  obtain ⟨bare, taken, rfl⟩ := Option.map_eq_some_iff.mp exchange
  obtain ⟨analyzers, enabled, restored⟩ := bind_eq_ok.mp (eq_ok_of_toOption begun)
  have listed : ∀ how, (Analyzer.linterName, how) ∈ (twoRules ⟨1, 2⟩).engines →
      Analyzer.lintRules how.options = .ok (["a", "b"].map .ofName) := by
    intro how entry
    cases List.mem_singleton.mp entry
    rfl
  have led : Led e backedOff [] := .built (isFit_of_enabledAnalyzers listed enabled) rfl (by decide) restored
  have again : Led (bare.add a) backedOff [] := by
    refine (led.removed taken).added (led.inStep.fit a mem) fun rows table r hr current => ?_
    obtain ⟨rows', table', -, knows⟩ := led.inStep.table
    cases table.symm.trans table'
    exact knows a mem r hr current
  obtain ⟨rows, table, kept⟩ := (again.keeps_backoff rfl).2 (.still ⟨1⟩) none
  refine ⟨e, a, _, rows, eq_ok_of_toOption begun, same, exchange, asked, table, ?_⟩
  exact kept secondRow (by decide) rfl List.not_mem_nil (asked ▸ by decide)

/-- a linter that has not begun, in the place of one that has taken up what is kept of two rules: the next cycle
checks the first rule, and the numbers of the second are lost -/
theorem forgotten_by_new_linter :
    ((silentEngine ⟨1, 2⟩ backedOff).toOption.bind fun e => (silentEngine ⟨1, 2⟩ .empty).toOption.bind fun f =>
      f.analyzers.head?.bind fun a => (e.exchanged a).map fun e' =>
        (e'.checked none, (e'.cycle (.still ⟨1⟩) none backedOff).2.2.schedules)) =
      some ([(.text "a", .text "eslint")],
        some [⟨1, "a", "eslint", true, 1, 1, 1⟩, { secondRow with zeroStreak := 0, lastChecked := 0 }]) := by
  decide +kernel

end Engine

end LintLedger
