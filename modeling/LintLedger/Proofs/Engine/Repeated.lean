import LintLedger.Proofs.Analyzer.Repeat
import LintLedger.Proofs.Engine.Agreement
import LintLedger.Proofs.Engine.Restart
import Mathlib

/-!
# Code that does not change

An engine goes through cycles that all end well, is begun again over the same store now and then, and its
tools leave the same outputs behind in every run (`Repeated`).  From one restart to the next an analyzer that
succeeds finds again whatever it has found before (`Stage.execute`); only the linter, which after a restart has
to ask for its rules one by one again, may have forgotten what a rule is about that has not had its turn yet
(`Forgets`), and the type analyzer may have been sent to another target where there is no project (`Strays`).
So a finding is recorded as removed for one of four reasons: it has given way to another one, its analyzer has
failed, the linter has forgotten it, or the type analyzer has strayed (`removed_of_repeated`).
-/

namespace LintLedger

open Outcome

namespace Cycle

/-- whether an analyzer reports a finding with a fingerprint in a cycle -/
def Finds (c : Cycle) (engine f : String) : Prop :=
  ∃ r ∈ c.analysis.reports, r.engine = engine ∧ r.success = true ∧
    f ∈ Violation.acceptedPrints r.violations

/-- whether an analyzer reports a failure in a cycle -/
def Misses (c : Cycle) (engine : String) : Prop :=
  ∃ r ∈ c.analysis.reports, r.engine = engine ∧ r.success = false

/-- whether a finding with a fingerprint has given way, in a cycle, to one with the same key -/
def Absorbs (c : Cycle) (strategy : Strategy) (f : String) : Prop :=
  ∃ r ∈ c.analysis.reports, r.success = true ∧ ∃ v ∈ r.violations, v.acceptedPrint? = some f ∧
    ∃ u ∈ c.analysis.violations, ∃ key,
      Findings.keyOf strategy u = .ok key ∧ Findings.keyOf strategy v = .ok key

end Cycle

namespace Analyzer

variable {w : Workspace} {a b : Analyzer} {target f : String} {o : ToolOutput} {r : Report} {c : Cycle}
  {names : List String} {asked asked' : List Rule} {own : List Cycle}

/-! ### What a linter remembers and forgets -/

/-- whether an output of the linter tells, of the rule of a name, of a finding with a fingerprint -/
def TellsOf (w : Workspace) (count : Nat) (o : ToolOutput) (name f : String) : Prop :=
  ∃ u ∈ lintPart w count o (.ofName name), (u.normalForm .eslint).acceptedPrint? = some f

/-- whether some rules are all that the linter has checked in some cycles, and all that it has found there is
what an output tells of them -/
structure Covers (w : Workspace) (o : ToolOutput) (names : List String) (asked : List Rule)
    (own : List Cycle) : Prop where
  told : ∀ d ∈ own, ∀ r ∈ d.analysis.reports, r.engine = linterName → r.success = true →
    ∀ v ∈ r.violations, ∃ rule ∈ asked, ∃ u ∈ lintPart w names.length o rule, u.normalForm .eslint = v
  asks : ∀ d ∈ own, ∀ name ∈ names, d.Asks name → Rule.ofName name ∈ asked

/-- whether what an output tells of a fingerprint is told of rules of the linter that no cycle since it has
begun has checked -/
structure Forgets (w : Workspace) (o : ToolOutput) (names : List String) (own : List Cycle) (c : Cycle)
    (f : String) : Prop where
  unfound : ∀ d ∈ own, ¬ d.Finds linterName f
  told : ∃ name ∈ names, TellsOf w names.length o name f
  unasked : ∀ name ∈ names, TellsOf w names.length o name f → ∀ d ∈ own ++ [c], ¬ d.Asks name

/-- one more cycle, with one report of the linter -/
theorem Covers.append (h : Covers w o names asked own) (more : ∀ rule ∈ asked, rule ∈ asked')
    (only : ∀ r' ∈ c.analysis.reports, r'.engine = linterName → r' = r)
    (told : r.success = true → ∀ v ∈ r.violations,
      ∃ rule ∈ asked', ∃ u ∈ lintPart w names.length o rule, u.normalForm .eslint = v)
    (bears : ∀ name ∈ names, r.checkedRule? = some (.text name) → Rule.ofName name ∈ asked') :
    Covers w o names asked' (own ++ [c]) := by
  refine ⟨fun d hd r' hr' engine success v hv => ?_, fun d hd name hname asking => ?_⟩
  · rcases List.mem_append.mp hd with before | now
    · obtain ⟨rule, hrule, part⟩ := h.told d before r' hr' engine success v hv
      exact ⟨rule, more rule hrule, part⟩
    · cases List.mem_singleton.mp now
      cases only r' hr' engine
      exact told success v hv
  · rcases List.mem_append.mp hd with before | now
    · exact more _ (h.asks d before name hname asking)
    · cases List.mem_singleton.mp now
      obtain ⟨r', hr', engine, rule⟩ := asking
      cases only r' hr' engine
      exact bears name hname rule

/-- what an output tells of none of the rules that have been checked is forgotten -/
theorem Covers.forgets (h : Covers w o names asked (own ++ [c]))
    (named : ∀ rule ∈ asked, ∃ name ∈ names, rule = .ofName name)
    (told : ∃ name ∈ names, TellsOf w names.length o name f)
    (unknown : ∀ name, Rule.ofName name ∈ asked → ¬ TellsOf w names.length o name f) :
    Forgets w o names own c f := by
  refine ⟨fun d hd finds => ?_, told, fun name hname tells d hd asking => ?_⟩
  · obtain ⟨r, hr, engine, success, print⟩ := finds
    obtain ⟨v, hv, print⟩ := List.mem_filterMap.mp print
    obtain ⟨rule, hrule, u, hu, rfl⟩ := h.told d (List.mem_append_left _ hd) r hr engine success v hv
    obtain ⟨name, -, rfl⟩ := named rule hrule
    exact unknown name hrule ⟨u, hu, print⟩
  · exact unknown name (h.asks d hd name hname asking) tells

/-! ### From one restart to the next -/

/-- what a fresh analyzer has become by some cycles since it has begun -/
inductive Stage (w : Workspace) (o : ToolOutput) (names : List String) (own : List Cycle) :
    Analyzer → Analyzer → Prop
  | plain {a : Analyzer} (plain : a.schedule? = none) (runner : Runner) :
      Stage w o names own a (a.withRunner runner)
  | linter {a b : Analyzer} {asked : List Rule} (begins : a.BeginsLinting names)
      (lints : b.LintsFor w o names asked) (covers : Covers w o names asked own) :
      Stage w o names own a b

/-- whether a report tells of what a fresh analyzer may find in an output -/
structure Reports (w : Workspace) (target : String) (o : ToolOutput) (names : List String) (a : Analyzer)
    (r : Report) : Prop where
  plain : a.schedule? = none → r.violations = (a.plainPart w target o).map (Violation.normalForm a.source)
  linter : a.BeginsLinting names → ∀ v ∈ r.violations, ∃ name ∈ names,
    ∃ u ∈ lintPart w names.length o (.ofName name), u.normalForm .eslint = v

/-- whether a report in a cycle tells of what a fresh analyzer may find in an output, and so of whatever it
may have reported of it before, unless that is forgotten or the analyzer strays -/
structure Renews (w : Workspace) (target : String) (o : ToolOutput) (names : List String) (own : List Cycle)
    (c : Cycle) (a : Analyzer) (r : Report) : Prop where
  reports : Reports w target o names a r
  again : ∀ target' r' f, Reports w target' o names a r' → f ∈ Violation.acceptedPrints r'.violations →
    f ∈ Violation.acceptedPrints r.violations ∨ a.name = linterName ∧ Forgets w o names own c f ∨
      a.Strays w target' target

/-- a run of an analyzer, if there is one report of it in a cycle, leads to its next stage, and renews what was
reported if it succeeds -/
theorem Stage.execute (stage : Stage w o names own a b) (left : b.Leaves w target o)
    (ran : (b.execute w target []).1 = .ok r)
    (only : ∀ r' ∈ c.analysis.reports, r'.engine = a.name → r' = r) :
    Stage w o names (own ++ [c]) a (b.execute w target []).2 ∧
      (r.success = true → Renews w target o names own c a r) := by
  cases stage with
  | plain plain runner =>
    obtain ⟨-, source, still⟩ := fields_withRunner a runner
    obtain ⟨runner', after⟩ :
        ∃ runner', ((a.withRunner runner).execute w target []).2 = a.withRunner runner' :=
      exists_withRunner_execute plain runner
    refine ⟨after ▸ .plain plain runner', fun success => ?_⟩
    obtain ⟨vs, settles, -, reported⟩ := exists_of_success ran success
    obtain rfl := settledRun_eq_plainPart (still plain) left settles
    rw [source, plainPart_withRunner] at reported
    refine ⟨⟨fun _ => reported, fun begins => absurd plain begins.schedule_ne_none⟩,
      fun target' r' f before found => ?_⟩
    rcases plainPart_eq_or_strays w a target' target o with same | strays
    · rw [before.plain plain, same, ← reported] at found
      exact .inl found
    · exact .inr (.inr strays)
  | linter begins lints covers =>
    obtain ⟨asked', more, lints', exact, bears⟩ := lints.execute left ran
    have linter := begins.name_eq
    have covers' : Covers w o names asked' (own ++ [c]) :=
      covers.append more (linter ▸ only) (fun success v hv => (exact success v).mp hv) bears
    refine ⟨.linter begins lints' covers', fun success => ⟨⟨fun plain => ?_, fun _ v hv => ?_⟩,
      fun target' r' f before found => ?_⟩⟩
    · exact absurd plain begins.schedule_ne_none
    · obtain ⟨rule, hrule, part⟩ := (exact success v).mp hv
      obtain ⟨name, hname, rfl⟩ := lints'.exists_name hrule
      exact ⟨name, hname, part⟩
    · by_cases known : ∃ name, Rule.ofName name ∈ asked' ∧ TellsOf w names.length o name f
      · obtain ⟨name, hname, u, hu, print⟩ := known
        exact .inl (List.mem_filterMap.mpr
          ⟨_, (exact success _).mpr ⟨.ofName name, hname, u, hu, rfl⟩, print⟩)
      · obtain ⟨v, hv, print⟩ := List.mem_filterMap.mp found
        obtain ⟨name, hname, u, hu, rfl⟩ := before.linter begins v hv
        exact .inr (.inl ⟨linter, covers'.forgets (fun rule => lints'.exists_name)
          ⟨name, hname, u, hu, print⟩ fun other hother tells => known ⟨other, hother, tells⟩⟩)

end Analyzer

namespace Engine

open Store

variable {fresh e e' : Engine} {names : List String} {target : Option String} {f : String} {c : Cycle}
  {outputs : String → ToolOutput} {start s : Store} {analyzers : List Analyzer} {clock : Clock} {r : Report}

/-! ### Engines that begin -/

/-- an engine that has not begun: no two of its analyzers have one name, and the only ones with a schedule are
linters that check rules of some names by turns -/
structure IsBegun (names : List String) (fresh : Engine) : Prop where
  apart : (fresh.analyzers.map (·.name)).Nodup
  begun : ∀ a ∈ fresh.analyzers, a.schedule? = none ∨ a.BeginsLinting names

/-- an engine of such analyzers has not begun, whatever their names are -/
theorem isBegun_of {settings : Settings} {w : Analyzer.Workspace} {keeping : Option StoreSettings}
    {added : List Analyzer} (begun : ∀ a ∈ added, a.schedule? = none ∨ a.BeginsLinting names) :
    (Engine.of settings w keeping added).IsBegun names := by
  obtain ⟨apart, some, -⟩ := foldl_add (e := ⟨settings, w, keeping, []⟩) added List.nodup_nil
  exact ⟨apart, fun a ha => begun a ((some a ha).resolve_right List.not_mem_nil)⟩

/-- whether the tools of an engine leave some outputs behind in a cycle on a target -/
def Repeats (e : Engine) (target : Option String) (outputs : String → ToolOutput) : Prop :=
  ∀ a ∈ e.analyzers, a.Leaves e.workspace (target.getD e.settings.targetPath) (outputs a.name)

instance : Decidable (e.Repeats target outputs) :=
  inferInstanceAs (Decidable (∀ a ∈ e.analyzers,
    a.Leaves e.workspace (target.getD e.settings.targetPath) (outputs a.name)))

/-- a cycle that has ended well, and what it was on -/
structure Visit where
  target : Option String
  cycle : Cycle

variable {earlier own : List Visit}

/-- what becomes of a store and of an engine by cycles that all end well and in which the tools leave the same
outputs behind, where a fresh engine may take up what the store holds after each: the cycles before the last
such restart, and those since -/
inductive Repeated (fresh : Engine) (outputs : String → ToolOutput) (start : Store) :
    List Visit → List Visit → Engine → Store → Prop
  | opens {e : Engine} (taken : fresh.restore start = .ok e) : Repeated fresh outputs start [] [] e start
  | cycle {earlier own : List Visit} {e : Engine} {s : Store} {c : Cycle} (clock : Clock)
      (target : Option String) (before : Repeated fresh outputs start earlier own e s)
      (repeats : e.Repeats target outputs) (ended : (e.cycle clock target s).1 = .ok c) :
      Repeated fresh outputs start earlier (own ++ [⟨target, c⟩]) (e.cycle clock target s).2.1
        (e.cycle clock target s).2.2
  | restart {earlier own : List Visit} {e e' : Engine} {s : Store}
      (before : Repeated fresh outputs start earlier own e s) (taken : fresh.restore s = .ok e') :
      Repeated fresh outputs start (earlier ++ own) [] e' s

/-- whether one of the analyzers of an engine compiles two targets of which one has no project -/
def Strays (fresh : Engine) (engine : String) (target target' : Option String) : Prop :=
  ∃ a ∈ fresh.analyzers, a.name = engine ∧
    a.Strays fresh.workspace (target.getD fresh.settings.targetPath)
      (target'.getD fresh.settings.targetPath)

theorem restore_eq_ok (h : e.restore s = .ok e') : ∃ analyzers, e' = { e with analyzers := analyzers } ∧
    analyzers.map (·.name) = e.analyzers.map (·.name) ∧ ∀ b ∈ analyzers, ∃ a ∈ e.analyzers,
      b.name = a.name ∧ (b = a ∨ ∃ schedule kept, a.schedule? = some schedule ∧
        b = a.withSchedule (schedule.restore kept)) := by
  have one : ∀ a b, restoreAnalyzer s a = .ok b → b.name = a.name ∧ (b = a ∨ ∃ schedule kept,
      a.schedule? = some schedule ∧ b = a.withSchedule (schedule.restore kept)) := by
    intro a b taken
    unfold restoreAnalyzer at taken
    cases own : a.schedule? with
    | none =>
      rw [own] at taken
      cases taken
      exact ⟨rfl, .inl rfl⟩
    | some schedule =>
      rw [own] at taken
      obtain ⟨kept, -, rfl⟩ := map_eq_ok.mp taken
      refine ⟨?_, .inr ⟨schedule, kept, rfl, rfl⟩⟩
      unfold Analyzer.withSchedule
      split <;> rfl
  unfold restore at h
  split at h
  · cases h
    exact ⟨e.analyzers, rfl, rfl, fun b hb => ⟨b, hb, rfl, .inl rfl⟩⟩
  · obtain ⟨analyzers, taken, h⟩ := bind_eq_ok.mp h
    cases h
    refine ⟨analyzers, rfl, map_of_mapM (fun a b h => (one a b h).1) taken, fun b hb => ?_⟩
    obtain ⟨a, ha, restored⟩ := exists_of_mem_mapM taken hb
    exact ⟨a, ha, one a b restored⟩

/-! ### What an engine remembers -/

/-- what holds of the analyzers of an engine after some cycles before its last restart and some since -/
structure Remembers (fresh : Engine) (outputs : String → ToolOutput) (names : List String)
    (earlier own : List Visit) (analyzers : List Analyzer) : Prop where
  named : analyzers.map (·.name) = fresh.analyzers.map (·.name)
  stages : ∀ b ∈ analyzers, ∃ a ∈ fresh.analyzers, b.name = a.name ∧
    Analyzer.Stage fresh.workspace (outputs a.name) names (own.map (·.cycle)) a b
  reported : ∀ d ∈ earlier ++ own, ∀ r ∈ d.cycle.analysis.reports, r.success = true →
    ∃ a ∈ fresh.analyzers, r.engine = a.name ∧
      Analyzer.Reports fresh.workspace (d.target.getD fresh.settings.targetPath) (outputs a.name) names a r

/-- an engine that takes up what a store holds remembers nothing but what has been reported -/
theorem IsBegun.restore (begun : fresh.IsBegun names) (taken : fresh.restore s = .ok e)
    (reported : ∀ d ∈ earlier, ∀ r ∈ d.cycle.analysis.reports, r.success = true →
      ∃ a ∈ fresh.analyzers, r.engine = a.name ∧ Analyzer.Reports fresh.workspace
        (d.target.getD fresh.settings.targetPath) (outputs a.name) names a r) :
    ∃ analyzers, e = { fresh with analyzers := analyzers } ∧
      Remembers fresh outputs names earlier [] analyzers := by
  obtain ⟨analyzers, rfl, named, origin⟩ := restore_eq_ok taken
  refine ⟨analyzers, rfl, named, fun b hb => ?_, by rwa [List.append_nil]⟩
  obtain ⟨a, ha, name, same⟩ := origin b hb
  refine ⟨a, ha, name, ?_⟩
  rcases begun.begun a ha with plain | begins
  · obtain rfl : b = a := by
      rcases same with same | ⟨schedule, kept, own, -⟩
      · exact same
      · rw [plain] at own
        cases own
    obtain ⟨runner, unchanged⟩ := b.exists_withRunner_eq
    have stage : Analyzer.Stage fresh.workspace (outputs b.name) names [] b (b.withRunner runner) :=
      .plain plain runner
    rwa [unchanged] at stage
  · have lints : b.LintsFor fresh.workspace (outputs a.name) names [] := by
      rcases same with rfl | ⟨schedule, kept, own, rfl⟩
      · exact begins.lintsFor
      · exact begins.lintsFor.restore own kept
    exact .linter begins lints ⟨List.forall_mem_nil _, List.forall_mem_nil _⟩

/-- in an analysis that has ended well there is one report of an analyzer -/
theorem report_unique {a : Analysis} (apart : (e.analyzers.map (·.name)).Nodup)
    (analyzed : (e.analyze target).1 = .ok a) {b : Analyzer} (hb : b ∈ e.analyzers)
    (ran : (b.execute e.workspace (target.getD e.settings.targetPath) []).1 = .ok r) {r' : Report}
    (hr' : r' ∈ a.reports) (same : r'.engine = b.name) : r' = r := by
  obtain ⟨b', hb', ran'⟩ := exists_execute_of_mem_reports analyzed hr'
  obtain rfl : b' = b :=
    List.inj_on_of_nodup_map apart hb' hb ((Analyzer.execute_eq_ok ran').2.1.symm.trans same)
  exact Except.ok.inj (ran'.symm.trans ran)

/-- what a cycle makes of one of the analyzers -/
theorem Remembers.step (h : Remembers fresh outputs names earlier own analyzers)
    (begun : fresh.IsBegun names) (repeats : Repeats { fresh with analyzers := analyzers } target outputs)
    (analyzed : (analyze target { fresh with analyzers := analyzers }).1 = .ok c.analysis) {b : Analyzer}
    (hb : b ∈ analyzers) :
    let place := target.getD fresh.settings.targetPath
    ∃ a ∈ fresh.analyzers, b.name = a.name ∧ ∃ r ∈ c.analysis.reports,
      (b.execute fresh.workspace place []).1 = .ok r ∧ r.engine = a.name ∧
      Analyzer.Stage fresh.workspace (outputs a.name) names (own.map (·.cycle) ++ [c]) a
        (b.execute fresh.workspace place []).2 ∧
      (r.success = true →
        Analyzer.Renews fresh.workspace place (outputs a.name) names (own.map (·.cycle)) c a r) := by
  intro place
  obtain ⟨a, ha, name, stage⟩ := h.stages b hb
  obtain ⟨r, hr, ran⟩ := exists_mem_reports analyzed hb
  have left : b.Leaves fresh.workspace place (outputs a.name) := name ▸ repeats b hb
  have apart : (analyzers.map (·.name)).Nodup := h.named ▸ begun.apart
  obtain ⟨next, again⟩ := stage.execute left ran fun r' hr' same =>
    report_unique apart analyzed hb ran hr' (same.trans name.symm)
  exact ⟨a, ha, name, r, hr, ran, (Analyzer.execute_eq_ok ran).2.1.trans name, next, again⟩

/-- a cycle goes on with what is remembered -/
theorem Remembers.analyze (h : Remembers fresh outputs names earlier own analyzers)
    (begun : fresh.IsBegun names) (repeats : Repeats { fresh with analyzers := analyzers } target outputs)
    (analyzed : (Engine.analyze target { fresh with analyzers := analyzers }).1 = .ok c.analysis) :
    ∃ analyzers', (Engine.analyze target { fresh with analyzers := analyzers }).2 =
        { fresh with analyzers := analyzers' } ∧
      Remembers fresh outputs names earlier (own ++ [⟨target, c⟩]) analyzers' := by
  refine ⟨analyzers.map fun b =>
    (b.execute fresh.workspace (target.getD fresh.settings.targetPath) []).2, ?_, ?_, ?_, ?_⟩
  · exact analyze_snd _ _
  · rw [← h.named, List.map_map]
    refine List.map_congr_left fun b _ => ?_
    obtain ⟨method, same⟩ :=
      b.execute_snd fresh.workspace (target.getD fresh.settings.targetPath) []
    dsimp only [Function.comp]
    rw [same]
  · intro b' hb'
    obtain ⟨b, hb, rfl⟩ := List.mem_map.mp hb'
    obtain ⟨a, ha, name, r, -, -, -, stage, -⟩ := h.step begun repeats analyzed hb
    obtain ⟨method, same⟩ :=
      b.execute_snd fresh.workspace (target.getD fresh.settings.targetPath) []
    refine ⟨a, ha, ?_, by rwa [List.map_append]⟩
    rw [same]
    exact name
  · intro d hd r hr success
    rw [← List.append_assoc] at hd
    rcases List.mem_append.mp hd with before | now
    · exact h.reported d before r hr success
    · cases List.mem_singleton.mp now
      obtain ⟨b, hb, ran⟩ := exists_execute_of_mem_reports analyzed hr
      obtain ⟨a, ha, -, r', -, ran', engine, -, again⟩ := h.step begun repeats analyzed hb
      obtain rfl : r' = r := Except.ok.inj (ran'.symm.trans ran)
      exact ⟨a, ha, engine, (again success).reports⟩

/-- a cycle finds again what was found before, unless the analyzer fails in it or strays or, if it is the
linter, has forgotten it -/
theorem Remembers.finds (h : Remembers fresh outputs names earlier own analyzers)
    (begun : fresh.IsBegun names) (repeats : Repeats { fresh with analyzers := analyzers } target outputs)
    (analyzed : (Engine.analyze target { fresh with analyzers := analyzers }).1 = .ok c.analysis)
    {d : Visit} (hd : d ∈ earlier ++ own) {engine : String} (finds : d.cycle.Finds engine f) :
    c.Finds engine f ∨ c.Misses engine ∨
      engine = Analyzer.linterName ∧
        Analyzer.Forgets fresh.workspace (outputs engine) names (own.map (·.cycle)) c f ∨
      fresh.Strays engine d.target target := by
  obtain ⟨r', hr', rfl, success', found⟩ := finds
  obtain ⟨a, ha, engine, reports⟩ := h.reported d hd r' hr' success'
  obtain ⟨b, hb, same⟩ : ∃ b ∈ analyzers, b.name = a.name :=
    List.mem_map.mp (h.named ▸ List.mem_map_of_mem ha)
  obtain ⟨a', ha', name, r, hr, -, own, -, again⟩ := h.step begun repeats analyzed hb
  obtain rfl : a' = a := List.inj_on_of_nodup_map begun.apart ha' ha (name.symm.trans same)
  rw [engine]
  cases success : r.success with
  | false => exact .inr (.inl ⟨r, hr, own, success⟩)
  | true =>
    rcases (again success).again _ r' f reports found with now | forgets | strays
    · exact .inl ⟨r, hr, own, success, now⟩
    · exact .inr (.inr (.inl forgets))
    · exact .inr (.inr (.inr ⟨a', ha, rfl, strays⟩))

/-! ### Cycle after cycle -/

theorem exists_finds_of_mem_accepted (analyzed : (e.analyze target).1 = .ok c.analysis)
    (hf : f ∈ c.accepted) : ∃ engine, c.Finds engine f := by
  obtain ⟨v, hv, print⟩ := List.mem_filterMap.mp (List.mem_toFinset.mp hf)
  rw [analyze_fst] at analyzed
  obtain ⟨-, gathered, reports, -⟩ := finish_eq_ok analyzed
  rw [← reports] at gathered
  obtain ⟨r, hr, success, hv⟩ := mem_of_mem_gather gathered hv
  exact ⟨r.engine, r, hr, rfl, success, List.mem_filterMap.mpr ⟨v, hv, print⟩⟩

/-- what an analyzer has found in a cycle is accepted, or has given way -/
theorem absorbs_of_finds (analyzed : (e.analyze target).1 = .ok c.analysis) {engine : String}
    (finds : c.Finds engine f) (lost : f ∉ c.accepted) :
    e.settings.deduplication.enabled = true ∧ c.Absorbs e.settings.deduplication.strategy f := by
  obtain ⟨r, hr, -, success, found⟩ := finds
  obtain ⟨v, hv, print⟩ := List.mem_filterMap.mp found
  rw [analyze_fst] at analyzed
  obtain ⟨-, gathered, reports, -⟩ := finish_eq_ok analyzed
  rw [← reports] at gathered
  rcases mem_or_exists_of_gather gathered hr success hv with kept | ⟨enabled, given⟩
  · exact absurd (List.mem_toFinset.mpr (List.mem_filterMap.mpr ⟨v, kept, print⟩)) lost
  · exact ⟨enabled, r, hr, success, v, hv, print, given⟩

/-- a store and an engine that cycles have led to: the engine remembers, and what is active was so at the start
or has been found since -/
theorem Repeated.remembers (h : Repeated fresh outputs start earlier own e s)
    (begun : fresh.IsBegun names) (first : start.Tracked)
    (sized : ∀ k, fresh.keeping = some k → 0 < k.batchSize) :
    s.Tracked ∧ (∀ f ∈ s.activePrints,
      f ∈ start.activePrints ∨ ∃ d ∈ earlier ++ own, ∃ engine, d.cycle.Finds engine f) ∧
    ∃ analyzers, e = { fresh with analyzers := analyzers } ∧
      Remembers fresh outputs names earlier own analyzers := by
  induction h with
  | opens taken => exact ⟨first, fun f hf => .inl hf, begun.restore taken (List.forall_mem_nil _)⟩
  | @cycle earlier own e s c clock target _ repeats ended ih =>
    obtain ⟨tracked, active, analyzers, same, remembers⟩ := ih
    obtain ⟨k, later, keeping, analyzed, -⟩ := exists_yields_of_cycle_eq_ok ended
    have makes := cycle_makes tracked (fun k keeping => sized k (by rwa [same] at keeping)) ended
    refine ⟨(cycle_advances e clock target tracked).tracked tracked, fun f hf => ?_, ?_⟩
    · rw [makes.activePrints_eq, Finset.mem_union] at hf
      rcases hf with before | now
      · refine (active f before).imp id ?_
        rintro ⟨d, hd, engine, finds⟩
        exact ⟨d, List.append_assoc earlier own _ ▸ List.mem_append_left _ hd, engine, finds⟩
      · obtain ⟨engine, finds⟩ := exists_finds_of_mem_accepted analyzed now
        exact .inr ⟨⟨target, c⟩, List.mem_append_right _ (List.mem_append_right _ List.mem_cons_self),
          engine, finds⟩
    · rw [cycle_of_analyze_eq_ok keeping analyzed]
      subst same
      exact remembers.analyze begun repeats analyzed
  | @restart earlier own e e' s _ taken ih =>
    obtain ⟨tracked, active, analyzers, rfl, remembers⟩ := ih
    refine ⟨tracked, by rwa [List.append_nil], begun.restore taken remembers.reported⟩

/-- **What is removed of unchanged code.** A fresh engine over a tracked store goes through cycles that all end
well, is begun again over that store now and then, and its tools leave the same outputs behind in every run.
Then a fingerprint that a cycle records as removed was active at the start or has been found by a cycle before.
Whatever analyzer has found it before, in this cycle it has given way to a finding with the same key, or the
analyzer has failed, or the analyzer is the linter, which has not found it since the last restart and has not
checked a rule since of which it is told, or the analyzer compiles another target than before and there is no
project on one of the two. -/
theorem removed_of_repeated (first : start.Tracked) (begun : fresh.IsBegun names)
    (sized : ∀ k, fresh.keeping = some k → 0 < k.batchSize)
    (repeated : Repeated fresh outputs start earlier own e s) (repeats : e.Repeats target outputs)
    (ended : (e.cycle clock target s).1 = .ok c) (gone : f ∈ c.delta.removed) :
    (f ∈ start.activePrints ∨ ∃ d ∈ earlier ++ own, ∃ engine, d.cycle.Finds engine f) ∧
      ∀ d ∈ earlier ++ own, ∀ engine, d.cycle.Finds engine f →
        fresh.settings.deduplication.enabled = true ∧
            c.Absorbs fresh.settings.deduplication.strategy f ∨
          c.Misses engine ∨
          engine = Analyzer.linterName ∧
            Analyzer.Forgets fresh.workspace (outputs engine) names (own.map (·.cycle)) c f ∨
          fresh.Strays engine d.target target := by
  obtain ⟨tracked, active, analyzers, same, remembers⟩ := repeated.remembers begun first sized
  obtain ⟨k, later, -, analyzed, -⟩ := exists_yields_of_cycle_eq_ok ended
  have makes := cycle_makes tracked (fun k keeping => sized k (by rwa [same] at keeping)) ended
  have removed : f ∈ s.activePrints \ c.accepted := by
    rw [← makes.delta_eq.2.1]
    exact List.mem_toFinset.mpr gone
  obtain ⟨before, lost⟩ := Finset.mem_sdiff.mp removed
  subst same
  refine ⟨active f before, fun d hd engine finds => ?_⟩
  rcases remembers.finds begun repeats analyzed hd finds with now | missed
  · have absorbs := absorbs_of_finds analyzed now lost
    exact .inl absorbs
  · exact .inr missed

/-! ### A rule that is found out again too late -/

/-- an engine with a linter of some rules, whose tool leaves one output behind in every run -/
def lintingAlways (names : List String) (o : ToolOutput) : Engine :=
  Engine.of { deduplication := { enabled := false } } Analyzer.bareProject (some {})
    [Analyzer.linterOn names o]

theorem isBegun_lintingAlways (names : List String) (o : ToolOutput) :
    (lintingAlways names o).IsBegun names := by
  refine isBegun_of fun a ha => .inr ?_
  obtain rfl := List.mem_singleton.mp ha
  exact ⟨_, _, _, _, Analyzer.linter_settingsFor names o, Analyzer.lintRules_settingsFor names, rfl⟩

/-- what comes of a fresh engine over a new store by cycles and restarts, the latest of them first, as far as
the cycles end well and the tools leave some outputs behind -/
def follow (fresh : Engine) (outputs : String → ToolOutput) :
    List Bool → Option (List Visit × List Visit × Engine × Store)
  | [] => (fresh.restore .empty).toOption.map fun e => ([], [], e, .empty)
  | restarts :: before => do
    let (earlier, own, e, s) ← follow fresh outputs before
    if restarts then
      let e' ← (fresh.restore s).toOption
      return (earlier ++ own, [], e', s)
    else if e.Repeats none outputs then
      let c ← (e.cycle (.still ⟨1⟩) none s).1.toOption
      return (earlier, own ++ [⟨none, c⟩], (e.cycle (.still ⟨1⟩) none s).2.1,
        (e.cycle (.still ⟨1⟩) none s).2.2)
    else none

theorem repeated_of_follow {steps : List Bool}
    (h : follow fresh outputs steps = some (earlier, own, e, s)) :
    Repeated fresh outputs .empty earlier own e s := by
  induction steps generalizing earlier own e s with
  | nil =>
    obtain ⟨e', taken, same⟩ := Option.map_eq_some_iff.mp h
    cases same
    exact .opens (eq_ok_of_toOption taken)
  | cons restarts before ih =>
    unfold follow at h
    obtain ⟨⟨earlier', own', e', s'⟩, first, h⟩ := Option.bind_eq_some_iff.mp h
    dsimp only at h
    split at h
    · obtain ⟨e'', taken, same⟩ := Option.bind_eq_some_iff.mp h
      cases same
      exact .restart (ih first) (eq_ok_of_toOption taken)
    · split at h
      · rename_i repeats
        obtain ⟨c, ended, same⟩ := Option.bind_eq_some_iff.mp h
        cases same
        exact .cycle _ none (ih first) repeats (eq_ok_of_toOption ended)
      · cases h

/-- output about the second of two rules -/
def secondOutput : ToolOutput where
  stdout := "[\x7b\"filePath\":\"a.ts\",\"messages\":[\x7b\"ruleId\":\"no-var\",\"line\":2\x7d]\x7d]"
  stderr := ""
  status := 1

/-- an engine with a linter of these rules -/
def secondEngine : Engine := lintingAlways ["prefer-const", "no-var"] secondOutput

/-- two cycles find what there is; after a restart the first rule is checked again, and the finding of the
second one is removed -/
theorem removed_of_repeated_restarted :
    ∃ earlier e s c f, Repeated secondEngine (fun _ => secondOutput) .empty earlier [] e s ∧
      (e.cycle (.still ⟨1⟩) none s).1 = .ok c ∧ f ∈ c.delta.removed ∧
      Analyzer.Forgets Analyzer.bareProject secondOutput ["prefer-const", "no-var"] [] c f := by
  have shown : (follow secondEngine (fun _ => secondOutput) [true, false, false]).map (fun p =>
      (p.2.1.length, decide (p.2.2.1.Repeats none fun _ => secondOutput),
        (p.2.2.1.cycle (.still ⟨1⟩) none p.2.2.2).1.toOption.map fun c =>
          (c.delta.removed.length, c.analysis.reports.all (·.success)))) =
      some (0, true, some (1, true)) := by
    decide +kernel
  obtain ⟨⟨earlier, own, e, s⟩, followed, told⟩ := Option.map_eq_some_iff.mp shown
  simp only [Prod.mk.injEq, List.length_eq_zero_iff, decide_eq_true_eq, Option.map_eq_some_iff] at told
  obtain ⟨rfl, repeats, c, ended, one, success⟩ := told
  have ended := eq_ok_of_toOption ended
  obtain ⟨f, gone⟩ := List.exists_mem_of_length_pos (l := c.delta.removed) (by omega)
  have repeated := repeated_of_follow followed
  have begun : secondEngine.IsBegun ["prefer-const", "no-var"] := isBegun_lintingAlways _ _
  obtain ⟨before, why⟩ := removed_of_repeated Tracked.empty begun
    (fun k keeping => by cases keeping; decide) repeated repeats ended gone
  refine ⟨earlier, e, s, c, f, repeated, ended, gone, ?_⟩
  have none : Store.empty.activePrints = ∅ := by decide
  have linters : ∀ a ∈ secondEngine.analyzers, a.schedule?.isSome := by decide +kernel
  obtain ⟨d, hd, engine, finds⟩ := before.resolve_left (none ▸ Finset.notMem_empty f)
  rcases why d hd engine finds with ⟨thinned, -⟩ | ⟨r, hr, -, failed⟩ | ⟨-, forgets⟩ | ⟨a, ha, -, strays⟩
  · cases thinned
  · rw [List.all_eq_true.mp success r hr] at failed
    cases failed
  · exact forgets
  · have scheduled := linters a ha
    rw [strays.schedule?_eq_none] at scheduled
    cases scheduled

/-- a cycle after a restart that records a finding as removed, although every cycle was on the same target and
every run has succeeded and found the same output -/
theorem removed_after_restart :
    ∃ earlier own e s, Repeated secondEngine (fun _ => secondOutput) .empty earlier own e s ∧
      (∀ d ∈ earlier ++ own, d.target = none ∧ ∀ r ∈ d.cycle.analysis.reports, r.success = true) ∧
      ∃ d ∈ own, d.cycle.delta.removed ≠ [] := by
  have shown : (follow secondEngine (fun _ => secondOutput) [false, true, false, false]).map (fun p =>
      ((p.1 ++ p.2.1).all fun d => d.target.isNone && d.cycle.analysis.reports.all (·.success),
        p.2.1.any fun d => !d.cycle.delta.removed.isEmpty)) = some (true, true) := by
    decide +kernel
  obtain ⟨⟨earlier, own, e, s⟩, followed, told⟩ := Option.map_eq_some_iff.mp shown
  simp only [Prod.mk.injEq, List.all_eq_true, List.any_eq_true, Bool.and_eq_true, Option.isNone_iff_eq_none,
    Bool.not_eq_true', List.isEmpty_eq_false_iff] at told
  exact ⟨earlier, own, e, s, repeated_of_follow followed, told⟩

end Engine

end LintLedger
