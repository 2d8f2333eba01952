import LintLedger.Analyzer
import LintLedger.Proofs.Analyzer.NormalForm
import Mathlib

/-!
# The contract of an analyzer

An analyzer that may fail answers every run with a report, of success or of why there was none, except
where a run *escapes*: its target is no path, or it ends well and in time with a finding that has no
normal form.  Findings are put into normal form only after the run has been settled, where no failure
is taken up any more.  `execute_of_escapes` and `execute_of_not_escapes` say so for every analyzer and
every run; a run of the type analyzer or of the detector of unused exports escapes only if its target
is no path.
-/

namespace LintLedger

open Outcome

/-- a report of a run that ended well, or one that says why it did not -/
def Report.IsTelling (r : Report) : Prop :=
  r.success = true ∨ r.success = false ∧ ∃ why, r.error = some why ∧ why ≠ ""

theorem Failure.wording_ne_empty (f : Failure) : f.wording ≠ "" := by
  unfold wording
  split
  · cases f.kind <;> decide
  · assumption

namespace Analyzer

/-- where a target lies -/
def placeOf (w : Workspace) (target : String) : Path := (w.root.join (Path.ofText target)).resolve

/-- what a run brings before its findings are put into normal form -/
def settledRun (w : Workspace) (a : Analyzer) (target : String) (options : Options) :
    Except (Failure × Bool) (List Violation) :=
  a.settle (a.find w (placeOf w target) (a.optionsWith options)).1

/-- whether a run leaves the contract -/
def Escapes (w : Workspace) (a : Analyzer) (target : String) (options : Options) : Prop :=
  '\x00' ∈ target.toList ∨
    ∃ vs, a.settledRun w target options = .ok vs ∧ ∃ v ∈ vs, ¬ v.IsTrimmable

variable {w : Workspace} {a : Analyzer} {target : String} {options : Options}

/-- a run changes nothing of an analyzer but what it finds things with -/
theorem find_snd (w : Workspace) (a : Analyzer) (place : Path) (options : Options) :
    ∃ method, (a.find w place options).2 = { a with method := method } := by
  unfold find
  cases h : a.method with
  | compiler runner => exact ⟨_, rfl⟩
  | linter runner s => exact ⟨_, rfl⟩
  | exports runner => exact ⟨_, rfl⟩
  | outside outcome elapsed =>
    cases outcome with
    | finds vs => exact ⟨a.method, rfl⟩
    | fails f => exact ⟨a.method, rfl⟩
    | hangs => exact ⟨a.method, rfl⟩

theorem execute_snd_eq_find (named : '\x00' ∉ target.toList) :
    (a.execute w target options).2 = (a.find w (placeOf w target) (a.optionsWith options)).2 := by
  unfold execute
  rw [if_neg (by simpa using named)]
  dsimp only
  split <;> rfl

/-- a run on what is no path leaves an analyzer as it was -/
theorem execute_snd_of_unnamed (unnamed : '\x00' ∈ target.toList) : (a.execute w target options).2 = a := by
  unfold execute
  rw [if_pos (by simpa using unnamed)]

theorem execute_snd (w : Workspace) (a : Analyzer) (target : String) (options : Options) :
    ∃ method, (a.execute w target options).2 = { a with method := method } := by
  by_cases named : '\x00' ∈ target.toList
  · exact ⟨a.method, execute_snd_of_unnamed named⟩
  · rw [execute_snd_eq_find named]
    exact find_snd w a _ _

/-- a run changes nothing of what its analyzer makes of findings -/
theorem settle_find (w : Workspace) (a : Analyzer) (place : Path) (options : Options)
    (finding : Option Finding) : (a.find w place options).2.settle finding = a.settle finding := by
  obtain ⟨method, same⟩ := find_snd w a place options
  rw [same]
  rfl

/-- a run of a proper target that settles is told in a report of what it found -/
theorem execute_of_settledRun_eq_ok (named : '\x00' ∉ target.toList) {vs : List Violation}
    (h : a.settledRun w target options = .ok vs) :
    (a.execute w target options).1 =
      (a.find w (placeOf w target) (a.optionsWith options)).2.settled (placeOf w target) vs := by
  unfold settledRun at h
  rw [← settle_find w a (placeOf w target) (a.optionsWith options)] at h
  unfold placeOf at h ⊢
  unfold execute
  rw [if_neg (by simpa using named)]
  simp only [h]

/-- one that fails is told in a report of its failure -/
theorem execute_of_settledRun_eq_error (named : '\x00' ∉ target.toList) {f : Failure}
    {timedOut : Bool} (h : a.settledRun w target options = .error (f, timedOut)) :
    (a.execute w target options).1 =
      (a.find w (placeOf w target) (a.optionsWith options)).2.failed (placeOf w target) f timedOut := by
  unfold settledRun at h
  rw [← settle_find w a (placeOf w target) (a.optionsWith options)] at h
  unfold placeOf at h ⊢
  unfold execute
  rw [if_neg (by simpa using named)]
  simp only [h]

/-! ### Reports -/

theorem exists_settled_eq_ok {place : Path} {vs : List Violation} :
    (∃ r, a.settled place vs = .ok r) ↔ ∀ v ∈ vs, v.IsTrimmable := by
  rw [← Violation.exists_normalizeAll_eq_ok a.source]
  constructor
  · rintro ⟨r, h⟩
    obtain ⟨ws, hws, -⟩ := bind_eq_ok.mp h
    exact ⟨ws, orFail_eq_ok.mp hws⟩
  · rintro ⟨ws, hws⟩
    exact ⟨_, bind_eq_ok.mpr ⟨ws, orFail_eq_ok.mpr hws, rfl⟩⟩

theorem settled_isTelling {place : Path} {vs : List Violation} {r : Report}
    (h : a.settled place vs = .ok r) : r.IsTelling := by
  obtain ⟨ws, -, h⟩ := bind_eq_ok.mp h
  cases h
  exact .inl rfl

theorem failed_isTelling {place : Path} {f : Failure} {timedOut : Bool}
    (lenient : a.settings.allowFailure = true) :
    ∃ r, a.failed place f timedOut = .ok r ∧ r.IsTelling := by
  unfold failed
  rw [if_pos lenient]
  exact ⟨_, rfl, .inr ⟨rfl, f.wording, rfl, f.wording_ne_empty⟩⟩

/-! ### The contract -/

/-- a run that ends with a report was about a proper target, and the report bears the name of its analyzer -/
theorem execute_eq_ok {options : Options} (h : (a.execute w target options).1 = .ok r) :
    '\x00' ∉ target.toList ∧ r.engine = a.name ∧
      (r.success = true → ∃ vs, a.settledRun w target options = .ok vs ∧
        r.notes = .settled (placeOf w target).text r.violations.length
          ((a.execute w target options).2.schedule?.map (·.status))) := by
  have named : '\x00' ∉ target.toList := by
    intro unnamed
    unfold Analyzer.execute at h
    rw [if_pos (by simpa using unnamed)] at h
    cases h
  obtain ⟨method, same⟩ := find_snd w a (placeOf w target) (a.optionsWith options)
  refine ⟨named, ?_⟩
  rw [execute_snd_eq_find named]
  have name : (a.find w (placeOf w target) (a.optionsWith options)).2.name = a.name := by rw [same]
  cases run : a.settledRun w target options with
  | ok vs =>
    rw [execute_of_settledRun_eq_ok named run] at h
    obtain ⟨ws, -, h⟩ := bind_eq_ok.mp h
    cases h
    exact ⟨name, fun _ => ⟨vs, rfl, rfl⟩⟩
  | error p =>
    obtain ⟨f, timedOut⟩ := p
    rw [execute_of_settledRun_eq_error named run] at h
    unfold failed at h
    split at h
    · cases h
      exact ⟨name, nofun⟩
    · cases h

/-- a failure of an analyzer that may fail is told in a report -/
theorem execute_of_crash (named : '\x00' ∉ target.toList) (lenient : a.settings.allowFailure = true)
    {f : Failure} {timedOut : Bool} (crash : a.settledRun w target options = .error (f, timedOut)) :
    ∃ r, (a.execute w target options).1 = .ok r ∧ r.engine = a.name ∧ r.success = false ∧
      r.failure = f.wording := by
  obtain ⟨method, same⟩ := find_snd w a (placeOf w target) (a.optionsWith options)
  rw [execute_of_settledRun_eq_error named crash, same]
  unfold failed
  rw [if_pos lenient]
  refine ⟨_, rfl, rfl, rfl, ?_⟩
  unfold Report.failure
  dsimp only
  rw [if_neg f.wording_ne_empty]

/-- a run that escapes fails, whether or not its analyzer may fail -/
theorem execute_of_escapes (h : a.Escapes w target options) :
    ∃ f, (a.execute w target options).1 = .error f := by
  by_cases named : '\x00' ∈ target.toList
  · unfold execute
    rw [if_pos (by simpa using named)]
    exact ⟨_, rfl⟩
  · obtain ⟨vs, hvs, v, hv, ragged⟩ := h.resolve_left named
    rw [execute_of_settledRun_eq_ok named hvs]
    generalize (a.find w (placeOf w target) (a.optionsWith options)).2 = b
    cases told : b.settled (placeOf w target) vs with
    | error f => exact ⟨f, rfl⟩
    | ok r => exact absurd (exists_settled_eq_ok.mp ⟨r, told⟩ v hv) ragged

/-- any other run of an analyzer that may fail ends with a report -/
theorem execute_of_not_escapes (lenient : a.settings.allowFailure = true)
    (h : ¬ a.Escapes w target options) :
    ∃ r, (a.execute w target options).1 = .ok r ∧ r.IsTelling := by
  obtain ⟨named, fine⟩ := not_or.mp h
  obtain ⟨method, same⟩ := find_snd w a (placeOf w target) (a.optionsWith options)
  have lenient' : (a.find w (placeOf w target) (a.optionsWith options)).2.settings.allowFailure
      = true := by
    rw [same]
    exact lenient
  cases hvs : a.settledRun w target options with
  | error p =>
    rw [execute_of_settledRun_eq_error named hvs]
    exact failed_isTelling lenient'
  | ok vs =>
    rw [execute_of_settledRun_eq_ok named hvs]
    have trimmable : ∀ v ∈ vs, v.IsTrimmable := by
      intro v hv
      by_contra ragged
      exact fine ⟨vs, hvs, v, hv, ragged⟩
    obtain ⟨r, told⟩ := exists_settled_eq_ok.mpr trimmable
    exact ⟨r, told, settled_isTelling told⟩

/-- a settled run that brings findings brings those of the run itself -/
theorem outcome_of_settle_eq_ok {finding : Option Finding} {vs : List Violation}
    (h : a.settle finding = .ok vs) : ∃ one, finding = some one ∧ one.outcome = .ok vs := by
  unfold settle at h
  cases finding with
  | none => cases h
  | some one =>
    dsimp only at h
    split at h
    · cases h
    · split at h
      · rename_i found
        cases h
        exact ⟨one, rfl, found⟩
      · cases h

/-! ### The type analyzer and the detector of unused exports -/

theorem compilerOutcome_isTrimmable {command : List String} {result : ToolResult}
    {vs : List Violation} (h : compilerOutcome w command result = .ok vs) :
    ∀ v ∈ vs, v.IsTrimmable := by
  unfold compilerOutcome at h
  obtain ⟨o, -, h⟩ := bind_eq_ok.mp h
  dsimp only at h
  split at h
  · cases h
  · split at h
    · cases h
    · exact Output.compilerFindings_isTrimmable (orFail_eq_ok.mp h)

theorem runCompiler_isTrimmable {runner : Runner} {place : Path} {vs : List Violation}
    (h : (runCompiler w runner place options).1.outcome = .ok vs) : ∀ v ∈ vs, v.IsTrimmable := by
  unfold runCompiler at h
  dsimp only at h
  split at h
  · cases h
  · cases h
    intro v hv
    rw [List.mem_singleton.mp hv]
    exact Output.finding_isTrimmable.mpr ⟨trivial, trivial⟩
  · exact compilerOutcome_isTrimmable h

theorem exportsOutcome_isTrimmable {command : List String} {result : ToolResult}
    {vs : List Violation} (h : exportsOutcome w command result = .ok vs) :
    ∀ v ∈ vs, v.IsTrimmable := by
  unfold exportsOutcome at h
  obtain ⟨o, -, h⟩ := bind_eq_ok.mp h
  dsimp only at h
  split at h
  · cases h
  · split at h
    · cases h
    · exact Output.exportFindings_isTrimmable (orFail_eq_ok.mp h)

theorem runExports_isTrimmable {runner : Runner} {place : Path} {vs : List Violation}
    (h : (runExports w runner place options).1.outcome = .ok vs) : ∀ v ∈ vs, v.IsTrimmable := by
  unfold runExports at h
  dsimp only at h
  split at h
  · cases h
  · exact exportsOutcome_isTrimmable h

/-- a run all of whose findings have a normal form escapes only if its target is no path -/
theorem escapes_iff_of_isTrimmable
    (fine : ∀ one vs, (a.find w (placeOf w target) (a.optionsWith options)).1 = some one →
      one.outcome = .ok vs → ∀ v ∈ vs, v.IsTrimmable) :
    a.Escapes w target options ↔ '\x00' ∈ target.toList := by
  refine ⟨fun h => h.resolve_right ?_, .inl⟩
  rintro ⟨vs, hvs, v, hv, ragged⟩
  obtain ⟨one, found, hone⟩ := outcome_of_settle_eq_ok hvs
  exact ragged (fine one vs found hone v hv)

/-- a run of the type analyzer escapes only if its target is no path -/
theorem escapes_compiler_iff {runner : Runner} (method : a.method = .compiler runner) :
    a.Escapes w target options ↔ '\x00' ∈ target.toList := by
  refine escapes_iff_of_isTrimmable fun one vs found hone => ?_
  unfold find at found
  rw [method] at found
  cases found
  exact runCompiler_isTrimmable hone

/-- so does a run of the detector of unused exports -/
theorem escapes_exports_iff {runner : Runner} (method : a.method = .exports runner) :
    a.Escapes w target options ↔ '\x00' ∈ target.toList := by
  refine escapes_iff_of_isTrimmable fun one vs found hone => ?_
  unfold find at found
  rw [method] at found
  cases found
  exact runExports_isTrimmable hone

end Analyzer

end LintLedger
