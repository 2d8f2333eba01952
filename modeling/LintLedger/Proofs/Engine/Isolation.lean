import LintLedger.Proofs.Analyzer.Linter
import LintLedger.Proofs.Engine.Analysis
import Mathlib

/-!
# Isolation

Analyzers that may fail are meant never to stop an analysis.  They do stop one just if one of them
escapes, and it is known of each analyzer when it does: of the type analyzer and the detector of unused
exports only for a target that is no path, of the linter also for a message with a rule or a wording
that is no text (`isolation`).  A linter whose tool writes a number as a wording stops the analysis
although it may fail (`isolation_numbered`).
-/

namespace LintLedger.Engine

open Analyzer

/-- an analyzer that may fail fails for good just if it escapes -/
theorem exists_execute_eq_error_iff {w : Workspace} {a : Analyzer} {target : String}
    {options : Options} (lenient : a.settings.allowFailure = true) :
    (∃ f, (a.execute w target options).1 = .error f) ↔ a.Escapes w target options := by
  refine ⟨?_, execute_of_escapes⟩
  rintro ⟨f, failed⟩
  by_contra kept
  obtain ⟨r, told, -⟩ := execute_of_not_escapes lenient kept
  rw [failed] at told
  cases told

/-- **Isolation.** A run of an analyzer that may fail ends with a report that tells of success or of why
there was none just if it does not escape, and fails for good otherwise.  A run of the type analyzer or
of the detector of unused exports escapes only for a target that is no path; a run of the linter also
if it ends well with a kept finding that has no normal form or with a message that it asked for and
that is not plain, so never while all messages are plain.  An analysis by analyzers that may fail is
given up for the sake of its analyzers just if one of them escapes. -/
theorem isolation (w : Workspace) (a : Analyzer) (target : String) (options : Options)
    (lenient : a.settings.allowFailure = true) :
    ((∃ r, (a.execute w target options).1 = .ok r ∧ r.IsTelling) ↔ ¬ a.Escapes w target options) ∧
    ((∃ f, (a.execute w target options).1 = .error f) ↔ a.Escapes w target options) ∧
    (∀ runner, a.method = .compiler runner ∨ a.method = .exports runner →
      (a.Escapes w target options ↔ '\x00' ∈ target.toList)) ∧
    (∀ runner s, a.method = .linter runner s →
      (a.Escapes w target options ↔
        '\x00' ∈ target.toList ∨ (∃ vs, a.settledRun w target options = .ok vs) ∧
          ((∃ v ∈ s.kept (a.optionsWith options), ¬ v.IsTrimmable) ∨
            ∃ m, a.Reads w target options m ∧ ¬ Output.IsPlain m))) ∧
    (a.Calm → (∀ m, a.Reads w target options m → Output.IsPlain m) →
      (a.Escapes w target options ↔ '\x00' ∈ target.toList)) ∧
    ∀ (e : Engine) (place : Option String), (∀ b ∈ e.analyzers, b.settings.allowFailure = true) →
      ((∃ f, (e.analyze place).1 = .error f ∧ f.kind = .analysis) ↔
        ∃ b ∈ e.analyzers, b.Escapes e.workspace (place.getD e.settings.targetPath) []) := by
  refine ⟨⟨?_, execute_of_not_escapes lenient⟩, exists_execute_eq_error_iff lenient, ?_, ?_, ?_, ?_⟩
  · rintro ⟨r, told, -⟩ escapes
    obtain ⟨f, failed⟩ := execute_of_escapes escapes
    rw [failed] at told
    cases told
  · rintro runner (method | method)
    · exact escapes_compiler_iff method
    · exact escapes_exports_iff method
  · intro runner s method
    exact escapes_linter_iff method
  · intro calm plain
    exact calm.escapes_iff plain
  · intro e place lenient
    rw [exists_kind_analysis_iff]
    constructor
    · rintro ⟨b, hb, failed⟩
      exact ⟨b, hb, (exists_execute_eq_error_iff (lenient b hb)).mp failed⟩
    · rintro ⟨b, hb, escapes⟩
      exact ⟨b, hb, (exists_execute_eq_error_iff (lenient b hb)).mpr escapes⟩

/-! ### A wording that is a number -/

/-- how a linter runs that may fail and checks all of its rules at once -/
def atOnce : AnalyzerSettings :=
  { AnalyzerSettings.default with options := [(.text "round_robin", .bool false)] }

/-- a tool that writes the same in every run -/
def writing (output : String) : Runner := .known [{ outcome := .ok ⟨output, "", 1⟩ }] []

/-- a linter with such a tool -/
def linterOf (output : String) : Analyzer :=
  let rules := defaultLintRules.map Rule.ofName
  ⟨linterName, .eslint, atOnce, .linter (writing output) ⟨rules, .start linterName 5 5 rules⟩⟩

/-- a project without files -/
def barren : Workspace := ⟨⟨.root, ["p"]⟩, .empty⟩

/-- linter output in which a wording is a number -/
def numberedWording : String := "[\x7b\"messages\":[\x7b\"message\":5\x7d]\x7d]"

/-- linter output in which it is a text -/
def textWording : String := "[\x7b\"messages\":[\x7b\"message\":\"x\"\x7d]\x7d]"

theorem lintMessages_writing (output : String) (request : ToolRequest) :
    (writing output).lintMessages request =
      if Text.strip output = "" then [] else Output.lintMessages output := rfl

theorem kept_linterOf (output : String) (s : LintState) :
    s.kept ((linterOf output).optionsWith []) = [] := by
  have turns : goesByTurns (Options.withMore atOnce.options []) = false := rfl
  unfold LintState.kept
  change (if goesByTurns (Options.withMore atOnce.options []) = true then _ else []) = []
  rw [turns]
  rfl

theorem linterOf_calm (output : String) : (linterOf output).Calm :=
  .start (show linter atOnce (writing output) 5 5 = .ok (linterOf output) from rfl)

theorem exists_execute_numberedWording :
    ∃ f, ((linterOf numberedWording).execute barren "." []).1 = .error f := by
  have failed : ((linterOf numberedWording).execute barren "." []).1.isOk = false := by
    decide +kernel
  cases ran : ((linterOf numberedWording).execute barren "." []).1 with
  | error f => exact ⟨f, rfl⟩
  | ok r =>
    rw [ran] at failed
    cases failed

/-- a linter that may fail and all the same fails for good -/
theorem lenient_fails : (linterOf numberedWording).settings.allowFailure = true ∧
    ∃ f, ((linterOf numberedWording).execute barren "." []).1 = .error f :=
  ⟨rfl, exists_execute_numberedWording⟩

theorem isolation_numbered :
    (∃ m, (linterOf numberedWording).Reads barren "." [] m ∧ ¬ Output.IsPlain m) ∧
    (∃ f, ((Engine.of {} barren none [linterOf numberedWording]).analyze none).1 = .error f ∧
      f.kind = .analysis) ∧
    ∃ r, ((linterOf textWording).execute barren "." []).1 = .ok r ∧ r.IsTelling := by
  obtain ⟨-, fails, -, linters, -, engines⟩ := isolation barren (linterOf numberedWording) "." [] rfl
  have escapes := fails.mp exists_execute_numberedWording
  have unplain : ∃ m, (linterOf numberedWording).Reads barren "." [] m ∧ ¬ Output.IsPlain m := by
    rcases (linters _ _ rfl).mp escapes with named | ⟨-, ⟨v, hv, -⟩ | ragged⟩
    · exact absurd named (by decide)
    · rw [kept_linterOf] at hv
      cases hv
    · exact ragged
  have plain : ∀ m, (linterOf textWording).Reads barren "." [] m → Output.IsPlain m := by
    have all : ∀ m ∈ Output.lintMessages textWording, Output.IsPlain m := by decide +kernel
    rintro m ⟨rules, -, command, -, read, -⟩
    rw [lintMessages_writing] at read
    split at read
    · cases read
    · exact all m read
  refine ⟨unplain, ?_, ?_⟩
  · refine (engines _ _ ?_).mpr ⟨linterOf numberedWording, by simp [Engine.of, Engine.add], escapes⟩
    simp [Engine.of, Engine.add, linterOf, atOnce, AnalyzerSettings.default]
  · obtain ⟨ends, -, -, -, calm, -⟩ := isolation barren (linterOf textWording) "." [] rfl
    refine ends.mpr fun escaped => ?_
    exact absurd ((calm (linterOf_calm textWording) plain).mp escaped) (by decide)

end LintLedger.Engine
