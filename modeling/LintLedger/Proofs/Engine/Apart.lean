import LintLedger.Proofs.Analyzer.BuiltIn
import LintLedger.Proofs.Engine.Agreement
import LintLedger.Proofs.Engine.Findings
import Mathlib

/-!
# Batches without doubles

Exact thinning out goes by file, line, code and source; a store tells violations apart by file, line, wording,
rule and classes.  Neither contains the other.  But what the built-in analyzers report says its code, so two
of their findings that a store cannot tell apart have one code as well, and only the first of them is left.
So no two findings of a batch that can be stored agree, and unless digests collide no two share a fingerprint:
a cycle counts as updates just the findings that had a row before it began (`batch_told_apart`).
-/

namespace LintLedger

open Outcome

namespace Violation

variable {v w : Violation}

theorem isAccepted_iff : v.isAccepted = true ↔ v.problems = .ok [] := by
  unfold isAccepted
  cases v.problems with
  | error f => simp
  | ok problems => simp

/-- findings of one file, line, code and source have one key -/
theorem keyFor_exact_eq (file : v.file = w.file) (line : v.line = w.line) (code : v.code = w.code)
    (source : v.source = w.source) : Findings.keyFor .exact v = Findings.keyFor .exact w := by
  unfold Findings.keyFor Findings.keyOf
  rw [file, line, code, source]

end Violation

/-! ### What an upsert adds -/

namespace Store

variable {order : Moments} {prints : List String} {rows rows' : List ViolationRow}

/-- different fingerprints that are written bring one row for each that had none -/
theorem Upserted.length_eq (h : Upserted order prints rows rows') (distinct : (printsOf rows).Nodup)
    (apart : prints.Nodup) : rows'.length = rows.length + prints.countP (· ∉ printsOf rows) := by
  have disjoint : (printsOf rows).Disjoint (prints.filter (· ∉ printsOf rows)) := by
    intro f known new
    simpa [known] using (List.mem_filter.mp new).2
  have perm : (printsOf rows').Perm (printsOf rows ++ prints.filter (· ∉ printsOf rows)) := by
    refine (List.perm_ext_iff_of_nodup (h.distinct distinct)
      (distinct.append (apart.filter _) disjoint)).mpr fun f => ?_
    rw [h.mem_printsOf_iff, List.mem_append, List.mem_filter, decide_eq_true_eq]
    tauto
  have lengths := perm.length_eq
  unfold printsOf at lengths ⊢
  rwa [List.length_append, List.length_map, List.length_map, ← List.countP_eq_length_filter] at lengths

end Store

/-! ### Batches -/

namespace Engine

open Store

variable {e : Engine} {target : Option String} {a : Analysis} {s : Store} {clock : Clock} {c : Cycle}

/-- an engine of built-in analyzers that thins out their findings exactly -/
structure IsExact (e : Engine) : Prop where
  builtIn : ∀ b ∈ e.analyzers, b.IsBuiltIn
  enabled : e.settings.deduplication.enabled = true
  exact : e.settings.deduplication.strategy = .exact

/-- an analysis leaves such an engine as one -/
theorem IsExact.analyze (h : e.IsExact) (target : Option String) : (e.analyze target).2.IsExact := by
  rw [analyze_snd]
  refine ⟨fun b hb => ?_, h.enabled, h.exact⟩
  obtain ⟨b', hb', rfl⟩ := List.mem_map.mp hb
  exact (h.builtIn b' hb').execute _ _ _

/-- so does a cycle, however it ends -/
theorem IsExact.cycle (h : e.IsExact) (clock : Clock) (target : Option String) (s : Store) :
    (e.cycle clock target s).2.1.IsExact := by
  have after := h.analyze target
  unfold Engine.cycle
  split
  · exact h
  · rcases whole : e.analyze target with ⟨outcome, e'⟩
    rw [whole] at after
    cases outcome with
    | error f => exact after
    | ok a => exact after

/-- and so does taking up what was kept of its schedules -/
theorem IsExact.restore (h : e.IsExact) {e' : Engine} (restored : e.restore s = .ok e') : e'.IsExact := by
  unfold Engine.restore at restored
  split at restored
  · cases restored
    exact h
  · obtain ⟨analyzers, taken, same⟩ := bind_eq_ok.mp restored
    cases same
    refine ⟨fun b hb => ?_, h.enabled, h.exact⟩
    obtain ⟨b', hb', one⟩ := exists_of_mem_mapM taken hb
    exact (h.builtIn b' hb').restoreAnalyzer one

/-- a finding of such an engine says its code, before it is put in normal form -/
theorem IsExact.exists_isWorded (h : e.IsExact) (analyzed : (e.analyze target).1 = .ok a) :
    ∀ v ∈ a.violations, ∃ source raw, Output.IsWorded source raw ∧ v = raw.normalForm source := by
  intro v hv
  have reports := analyzed
  rw [analyze_fst] at analyzed
  obtain ⟨-, gathered, same, -⟩ := finish_eq_ok analyzed
  obtain ⟨r, hr, success, hv⟩ := mem_of_mem_gather gathered hv
  obtain ⟨b, hb, ran⟩ := exists_execute_of_mem_reports reports (same ▸ hr)
  exact ⟨b.source, (h.builtIn b hb).exists_isWorded ran success v hv⟩

/-- no two findings of a batch that can be stored agree -/
theorem IsExact.pairwise_not_agrees (h : e.IsExact) (analyzed : (e.analyze target).1 = .ok a) :
    (a.violations.filter Violation.isAccepted).Pairwise fun v w => ¬ v.Agrees w := by
  have worded := h.exists_isWorded analyzed
  rw [analyze_fst] at analyzed
  obtain ⟨-, gathered, -, -⟩ := finish_eq_ok analyzed
  obtain ⟨merged, -, left⟩ := gather_eq_ok gathered
  rw [if_pos h.enabled, h.exact] at left
  obtain ⟨-, thinned⟩ := Findings.deduplicate_eq_ok_iff.mp left
  have keys : a.violations.Pairwise fun v w => Findings.keyFor .exact v ≠ Findings.keyFor .exact w := by
    rw [thinned]
    exact pairwise_distinctBy _ _
  refine (keys.filter _).imp_of_mem fun {v w} hv hw other agrees => other ?_
  obtain ⟨hv, cleanV⟩ := List.mem_filter.mp hv
  obtain ⟨hw, cleanW⟩ := List.mem_filter.mp hw
  obtain ⟨source, raw, said, rfl⟩ := worded v hv
  obtain ⟨source', raw', said', rfl⟩ := worded w hw
  obtain rfl : source = source' := Label.known.inj agrees.source
  exact Violation.keyFor_exact_eq agrees.file agrees.line
    (Output.code_eq_of_agrees said said' (Violation.isAccepted_iff.mp cleanV)
      (Violation.isAccepted_iff.mp cleanW) agrees) agrees.source

/-- the fingerprints of a batch are those of its findings that can be stored -/
theorem acceptedPrints_eq (analyzed : (e.analyze target).1 = .ok a) :
    (Violation.acceptedPrints a.violations).map Except.ok =
      (a.violations.filter Violation.isAccepted).map Violation.fingerprint := by
  unfold Violation.acceptedPrints
  rw [List.map_filterMap, ← List.filterMap_eq_map, ← List.filterMap_eq_filter, List.filterMap_filterMap]
  refine List.filterMap_congr fun v hv => ?_
  obtain ⟨f, print⟩ := Violation.exists_fingerprint_eq_ok (Engine.analyze_eq_ok analyzed v hv).2
  unfold Violation.acceptedPrint?
  by_cases accepted : v.isAccepted = true
  · simp [accepted, print, Except.toOption]
  · simp [accepted, Option.guard]

/-- **Batches without doubles.** Whatever the runs of the built-in analyzers have found so far and whatever
their tools write now, no two findings of an analysis that thins out exactly and that can be stored agree in
the parts that identify them.  So, unless two of them that do not agree share a digest, a cycle counts as
updated the findings whose fingerprints had a row before it, and as inserted all others. -/
theorem batch_told_apart (h : e.IsExact) :
    (∀ target, (e.analyze target).2.IsExact) ∧
    (∀ clock target s, (e.cycle clock target s).2.1.IsExact) ∧
    (∀ s e', e.restore s = .ok e' → e'.IsExact) ∧
    (∀ target a, (e.analyze target).1 = .ok a →
      (a.violations.filter Violation.isAccepted).Pairwise fun v w => ¬ v.Agrees w) ∧
    ∀ clock target s k rows c, e.keeping = some k → 0 < k.batchSize → s.violations = some rows →
      (printsOf rows).Nodup → (e.cycle clock target s).1 = .ok c →
      (∀ v ∈ c.analysis.violations, ∀ w ∈ c.analysis.violations, v.isAccepted = true →
        w.isAccepted = true → v.fingerprint = w.fingerprint → v.Agrees w) →
      (Violation.acceptedPrints c.analysis.violations).Nodup ∧
      c.stored.updated = (Violation.acceptedPrints c.analysis.violations).countP (· ∈ printsOf rows) ∧
      c.stored.inserted = (Violation.acceptedPrints c.analysis.violations).countP (· ∉ printsOf rows) := by
  refine ⟨h.analyze, h.cycle, fun _ _ => h.restore, fun target a analyzed => h.pairwise_not_agrees analyzed, ?_⟩
  intro clock target s k rows c keeping sized known distinct ended told
  obtain ⟨k', keeping', analyzed, begun, recorded, stored, later, started, compared, written, -⟩ :=
    cycle_eq_ok ended
  obtain rfl := Option.some.inj (keeping.symm.trans keeping')
  have prints := acceptedPrints_eq analyzed
  have apart : (Violation.acceptedPrints c.analysis.violations).Nodup := by
    refine List.Nodup.of_map (.ok : String → Except Fault String) ?_
    rw [prints]
    refine List.pairwise_map.mpr ((h.pairwise_not_agrees analyzed).imp_of_mem fun {v w} hv hw other same => ?_)
    obtain ⟨hv, acceptedV⟩ := List.mem_filter.mp hv
    obtain ⟨hw, acceptedW⟩ := List.mem_filter.mp hw
    exact other (told v hv w hw acceptedV acceptedW same)
  have unchanged : recorded.violations = some rows := by
    obtain ⟨checks, row, -, -, -, rfl⟩ := startCheck_eq_ok started
    obtain ⟨-, -, -, ⟨-, rfl⟩ | ⟨history, number, -, -, rfl⟩⟩ := recordDeltas_eq_ok compared
    · exact known
    · exact known
  obtain ⟨rows', -, upserted, inserted, accepted, -⟩ := storeViolations_eq_ok sized unchanged written
  have new := upserted.length_eq distinct apart
  have all : (Violation.acceptedPrints c.analysis.violations).length =
      c.analysis.violations.countP Violation.isAccepted := by
    have lengths := congrArg List.length prints
    rwa [List.length_map, List.length_map, ← List.countP_eq_length_filter] at lengths
  have split := (Violation.acceptedPrints c.analysis.violations).length_eq_countP_add_countP
    fun f => decide (f ∈ printsOf rows)
  simp only [decide_eq_true_eq] at split
  exact ⟨apart, by omega, by omega⟩

/-! ### A name that is told of twice -/

/-- an unused name in one line of a file -/
def unusedAt (name : String) (column : Int) : Violation :=
  (Output.finding (.text "a.ts") (.int 3) (.text name) .unusedExport .info (.text "unused-export")
    (.text (Output.unusedWording name)) (.int column)).normalForm .unusedExports

/-- the detector of unused exports, with a tool that tells of two names in one line, and of one of them twice -/
def repeating : Engine :=
  ⟨{}, Analyzer.bareProject, some {}, [Analyzer.exports .default (.known [
    { outcome := .ok ⟨"a.ts[3,1]: foo, bar\na.ts[3,9]: foo", "", 1⟩ }] [])]⟩

/-- what it reports -/
def repeated : Report :=
  ⟨Analyzer.exportsName, [unusedAt "foo" 1, unusedAt "bar" 1, unusedAt "foo" 9], .zero, true, none,
    .settled "/p" 3 none⟩

/-- what is left of that -/
def unrepeated : List Violation := [unusedAt "foo" 1, unusedAt "bar" 1]

/-- an analysis that comes to that -/
def repeatedOnce : Analysis :=
  ⟨unrepeated, [repeated], (Findings.summarize unrepeated [repeated] repeating.settings.topFiles).toOption.getD
    default, []⟩

theorem repeating_isExact : repeating.IsExact :=
  ⟨List.forall_mem_singleton.mpr (.exports _ _), rfl, rfl⟩

theorem analyze_repeating : (repeating.analyze none).1 = .ok repeatedOnce := by
  have alone : repeating.ordered = repeating.analyzers := List.mergeSort_singleton _
  have merged : Findings.merge [repeated] [Analyzer.exportsName] = .ok repeated.violations := by
    have sorted : (Findings.tagged [repeated]).Pairwise fun t u =>
        Findings.mayPrecede [Analyzer.exportsName] t u = true := by decide +kernel
    refine Findings.merge_eq_ok_iff.mpr ⟨?_, by decide +kernel, ?_⟩
    · intro t ht
      obtain rfl | rfl | rfl : t = (Analyzer.exportsName, unusedAt "foo" 1) ∨
          t = (Analyzer.exportsName, unusedAt "bar" 1) ∨ t = (Analyzer.exportsName, unusedAt "foo" 9) := by
        simpa [Findings.tagged, repeated] using ht
      all_goals exact ⟨Severity.info.rank, rfl⟩
    · rw [List.mergeSort_of_pairwise sorted]
      rfl
  have gathered : repeating.gather [Analyzer.exportsName] [repeated] = .ok unrepeated := by
    refine bind_eq_ok.mpr ⟨_, orFail_eq_ok.mpr merged, ?_⟩
    rfl
  rw [analyze_fst, alone]
  refine bind_eq_ok.mpr ⟨unrepeated, gathered, bind_eq_ok.mpr ⟨[], rfl, bind_eq_ok.mpr ⟨(), rfl, ?_⟩⟩⟩
  rfl

/-- One finding is left for each name, and each of them is a new row. -/
theorem batch_told_apart_repeating :
    ∃ c, (repeating.cycle (.still ⟨1⟩) none .empty).1 = .ok c ∧ c.analysis.violations = unrepeated ∧
      c.stored.updated = 0 ∧ c.stored.inserted = 2 := by
  have whole : repeating.cycle (.still ⟨1⟩) none .empty = _ := cycle_of_analyze_eq_ok rfl analyze_repeating
  have endsWell : (repeating.cycle (.still ⟨1⟩) none .empty).1.isOk = true := by
    rw [whole]
    decide +kernel
  obtain ⟨c, ended⟩ := exists_eq_ok.mpr endsWell
  obtain ⟨-, -, analyzed, -⟩ := cycle_eq_ok ended
  have found : c.analysis.violations = unrepeated := by
    rw [← Except.ok.inj (analyze_repeating.symm.trans analyzed)]
    rfl
  have apart : (unrepeated.map fun v => v.fingerprint.toOption).Nodup := by decide +kernel
  have prints : (Violation.acceptedPrints unrepeated).length = 2 := by decide +kernel
  obtain ⟨-, -, -, -, counts⟩ := batch_told_apart repeating_isExact
  obtain ⟨-, updated, inserted⟩ := counts (.still ⟨1⟩) none .empty {} [] c rfl (by decide) rfl
    List.nodup_nil ended fun v hv w hw _ _ same => by
      rw [found] at hv hw
      obtain rfl := List.inj_on_of_nodup_map apart hv hw (congrArg Except.toOption same)
      exact ⟨rfl, rfl, rfl, rfl, rfl, rfl, rfl⟩
  rw [found] at updated inserted
  refine ⟨c, ended, found, ?_, ?_⟩
  · rw [updated]
    simp [printsOf]
  · rw [inserted]
    simpa [printsOf] using prints

end Engine

end LintLedger
