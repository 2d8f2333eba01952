import LintLedger.Engine.Arrival
import LintLedger.Proofs.Engine.Analysis
import LintLedger.Proofs.Findings.Ordered
import Mathlib

/-!
# Reports in the order in which they come in

It does not matter in which order the runs of an analysis end (`completion_order_irrelevant`).  What has
come in once all have ended are the reports and the failures, each under the name of its analyzer
(`Arrivals.of_eq`), and these are taken up by priority (`sameOutcome_arrive`).  The merged findings do not
even depend on that: no two analyzers share a seat in them.
-/

namespace LintLedger

/-! ### Entries under names -/

section Entries

variable {α : Type} {entries others : List (String × α)} {name : String} {a : α}

/-- what is found under a name is what was taken down under it, if no name comes twice -/
theorem lookup_eq_some_iff (apart : (entries.map Prod.fst).Nodup) :
    entries.lookup name = some a ↔ (name, a) ∈ entries := by
  induction entries with
  | nil => simp
  | cons entry rest ih =>
    obtain ⟨other, b⟩ := entry
    rw [List.map_cons, List.nodup_cons] at apart
    rw [List.lookup_cons, List.mem_cons, Prod.mk.injEq]
    by_cases same : name = other
    · subst same
      have fresh : (name, a) ∉ rest := fun later => apart.1 (List.mem_map.mpr ⟨_, later, rfl⟩)
      simp [fresh, eq_comm]
    · rw [beq_false_of_ne same, ih apart.2]
      simp [same]

theorem lookup_of_perm (perm : entries.Perm others) (apart : (others.map Prod.fst).Nodup) :
    entries.lookup name = others.lookup name := by
  ext a
  rw [lookup_eq_some_iff apart, lookup_eq_some_iff ((perm.map _).nodup_iff.mpr apart), perm.mem_iff]

theorem Arrivals.put_of_not_mem (new : name ∉ entries.map Prod.fst) :
    Arrivals.put name a entries = entries ++ [(name, a)] := by
  unfold Arrivals.put
  rw [if_neg]
  simpa using new

end Entries

/-! ### What has come in -/

open Engine

variable {e : Engine} {runs ended : List Run}

/-- the reports of runs under the names of their analyzers -/
def Engine.reported (runs : List Run) : List (String × Report) :=
  runs.filterMap fun r => match r.outcome with
    | .ok report => some (r.analyzer.name, report)
    | .error _ => none

theorem mem_reported {name : String} {report : Report} : (name, report) ∈ reported runs ↔
    ∃ r ∈ runs, r.analyzer.name = name ∧ r.outcome = .ok report := by
  unfold reported
  rw [List.mem_filterMap]
  refine exists_congr fun r => and_congr_right fun _ => ?_
  cases r.outcome <;> simp

/-- what is taken down of runs, each under the name of its analyzer, bears their names in their order -/
theorem names_sublist {β : Type} {f : Run → Option (String × β)}
    (own : ∀ r entry, f r = some entry → entry.1 = r.analyzer.name) (runs : List Run) :
    ((runs.filterMap f).map Prod.fst).Sublist (runs.map (·.analyzer.name)) := by
  induction runs with
  | nil => exact .slnil
  | cons r rest ih =>
    cases taken : f r with
    | none =>
      rw [List.filterMap_cons_none taken]
      exact ih.cons _
    | some entry =>
      rw [List.filterMap_cons_some taken, List.map_cons, List.map_cons, own r entry taken]
      exact ih.cons_cons _

theorem names_reported (runs : List Run) :
    ((reported runs).map Prod.fst).Sublist (runs.map (·.analyzer.name)) := by
  refine names_sublist (fun r entry h => ?_) runs
  split at h <;> cases h
  rfl

theorem names_unsettled (runs : List Run) :
    ((unsettled runs).map Prod.fst).Sublist (runs.map (·.analyzer.name)) := by
  refine names_sublist (fun r entry h => ?_) runs
  split at h <;> cases h
  rfl

/-- what has come in of runs of different analyzers are their reports and their failures -/
theorem Arrivals.of_eq (apart : (ended.map (·.analyzer.name)).Nodup) :
    Arrivals.of ended = ⟨reported ended, unsettled ended⟩ := by
  induction ended using List.reverseRecOn with
  | nil => rfl
  | append_singleton runs r ih =>
    rw [List.map_append, List.nodup_append] at apart
    obtain ⟨before, -, new⟩ := apart
    have new : r.analyzer.name ∉ runs.map (·.analyzer.name) := fun old => new _ old _ (by simp) rfl
    have step : Arrivals.of (runs ++ [r]) = (Arrivals.of runs).take r := by
      unfold Arrivals.of
      rw [List.foldl_append]
      rfl
    have reports : reported (runs ++ [r]) = reported runs ++ reported [r] := List.filterMap_append
    have failures : unsettled (runs ++ [r]) = unsettled runs ++ unsettled [r] := List.filterMap_append
    rw [step, ih before, reports, failures]
    unfold Arrivals.take
    cases outcome : r.outcome with
    | ok report =>
      have reports : reported [r] = [(r.analyzer.name, report)] := by simp [reported, outcome]
      have failures : unsettled [r] = [] := by simp [unsettled, outcome]
      rw [reports, failures, List.append_nil]
      dsimp only
      rw [Arrivals.put_of_not_mem fun old => new ((names_reported runs).subset old)]
    | error f =>
      have reports : reported [r] = [] := by simp [reported, outcome]
      have failures : unsettled [r] = [(r.analyzer.name, f)] := by simp [unsettled, outcome]
      rw [reports, failures, List.append_nil]
      dsimp only
      rw [Arrivals.put_of_not_mem fun old => new ((names_unsettled runs).subset old)]

/-! ### Taken up by priority -/

namespace Engine

open Findings

/-- the reports under the names of runs of different analyzers are their reports in their order -/
theorem filterMap_lookup_reported (apart : (runs.map (·.analyzer.name)).Nodup) :
    ((runs.map (·.analyzer.name)).filterMap fun name => (reported runs).lookup name) = settled runs := by
  have distinct : ((reported runs).map Prod.fst).Nodup := apart.sublist (names_reported runs)
  unfold settled
  rw [List.filterMap_map]
  refine List.filterMap_congr fun r hr => ?_
  dsimp only [Function.comp]
  cases outcome : r.outcome with
  | ok report => exact (lookup_eq_some_iff distinct).mpr (mem_reported.mpr ⟨r, hr, rfl, outcome⟩)
  | error f =>
    rw [Option.eq_none_iff_forall_ne_some]
    intro report found
    obtain ⟨q, hq, same, ended⟩ := mem_reported.mp ((lookup_eq_some_iff distinct).mp found)
    obtain rfl := List.inj_on_of_nodup_map apart hq hr same
    rw [outcome] at ended
    cases ended

/-- whether analyses amount to the same; it does not count in which order failures are told -/
def SameOutcome (x y : Except Failure Analysis) : Prop :=
  x = y ∨ ∃ failures failures' reports, failures.Perm failures' ∧
    x = .error (.analysis failures reports) ∧ y = .error (.analysis failures' reports)

theorem sameOutcome_finish {order : List String} {reports : List Report}
    {failures failures' : List (String × Failure)} (perm : failures.Perm failures') :
    SameOutcome (e.finish order failures reports) (e.finish order failures' reports) := by
  cases failures with
  | nil =>
    rw [List.nil_perm.mp perm]
    exact .inl rfl
  | cons f more =>
    cases failures' with
    | nil => exact absurd (List.perm_nil.mp perm) (List.cons_ne_nil f more)
    | cons g others => exact .inr ⟨f :: more, g :: others, reports, perm, rfl, rfl⟩

/-- runs of different analyzers amount, in whatever order they end, to what they amount to by priority -/
theorem sameOutcome_arrive (apart : (e.analyzers.map (·.name)).Nodup)
    (names : runs.map (·.analyzer.name) = e.ordered.map (·.name)) (perm : ended.Perm runs) :
    SameOutcome (e.arrive ended) (e.conclude runs) := by
  have distinct : (runs.map (·.analyzer.name)).Nodup := by
    rw [names]
    exact nodup_ordered apart
  have lookups : ∀ name, (reported ended).lookup name = (reported runs).lookup name :=
    fun name => lookup_of_perm (perm.filterMap _) (distinct.sublist (names_reported runs))
  unfold arrive conclude
  dsimp only
  rw [Arrivals.of_eq ((perm.map _).nodup_iff.mpr distinct), ← names]
  simp only [lookups]
  rw [filterMap_lookup_reported distinct]
  exact sameOutcome_finish (perm.filterMap _)

/-- **The order of completion is irrelevant.** Whatever the runs of the analyzers of an engine end with, in
whatever order they end, they amount to what they amount to by priority; so each analysis of an engine
comes out as it does.  Reports of different analyzers, each with a rank, are merged into the same row in
whatever order they are given: their findings by rank, severity, file and line, if files and lines can be
put in order.  If a severity is a list or a map, there is no such row for any of these orders. -/
theorem completion_order_irrelevant (apart : (e.analyzers.map (·.name)).Nodup) :
    (∀ runs ended : List Run, runs.map (·.analyzer.name) = e.ordered.map (·.name) →
      ended.Perm runs → SameOutcome (e.arrive ended) (e.conclude runs)) ∧
    (∀ (target : Option String) (ended : List Run),
      ended.Perm (e.runAll (target.getD e.settings.targetPath)) →
      SameOutcome (e.arrive ended) (e.analyze target).1) ∧
    ∀ (order : List String) (reports : List Report), (reports.map (·.engine)).Nodup →
      (∀ r ∈ reports, r.engine ∈ order) →
      Value.IsComparable ((tagged reports).map (·.2.file)) →
      Value.IsComparable ((tagged reports).map (·.2.line)) →
      ((∀ t ∈ tagged reports, IsPlaceable t.2) →
        ∃ items : List (String × Violation), items.Perm (tagged reports) ∧
          (items.Pairwise fun t u => Place.before (seat order u).1 (seat order t).1 = .ok false) ∧
          ∀ reports', reports'.Perm reports → merge reports' order = .ok (items.map Prod.snd)) ∧
      ((∃ t ∈ tagged reports, ¬IsPlaceable t.2) →
        ∀ reports', reports'.Perm reports → ∃ fault, merge reports' order = .error fault) := by
  refine ⟨fun runs ended names perm => sameOutcome_arrive apart names perm, fun target ended perm => ?_,
    fun order reports apart ranked files lines => exists_merged apart ranked files lines⟩
  rw [analyze_fst]
  refine sameOutcome_arrive apart (map_name_runOf _ _) ?_
  rw [← runsByPriority_runAll]
  exact perm.trans (List.mergeSort_perm _ _).symm

/-! ### Two analyzers that end the other way round -/

/-- a finding in a file -/
def findingIn (file : String) : Violation :=
  ⟨.text file, .int 1, .text "x", .known .style, .known .warn, .known .custom, .null, .null, .null, .null⟩

/-- two analyzers, of which the one that was added first comes last by priority -/
def crossed : Engine :=
  ⟨{}, ⟨⟨.root, ["p"]⟩, .empty⟩, none, [
    ⟨"late", .custom, { AnalyzerSettings.default with priority := 9 },
      .outside (.finds [findingIn "a.ts"]) none⟩,
    ⟨"soon", .custom, .default, .outside (.finds [findingIn "b.ts"]) none⟩]⟩

/-- the report of an analyzer of one finding in a file -/
def reportOf (name file : String) : Report := ⟨name, [findingIn file], .zero, true, none, .none⟩

theorem completion_order_irrelevant_crossed :
    SameOutcome (crossed.arrive (crossed.ordered.map (crossed.runOf ".")).reverse)
      (crossed.conclude (crossed.ordered.map (crossed.runOf "."))) ∧
    SameOutcome (crossed.arrive (crossed.runAll (Option.getD none crossed.settings.targetPath)))
      (crossed.analyze none).1 ∧
    ∃ vs, merge [reportOf "soon" "b.ts", reportOf "late" "a.ts"] ["soon", "late"] = .ok vs ∧
      merge [reportOf "late" "a.ts", reportOf "soon" "b.ts"] ["soon", "late"] = .ok vs := by
  obtain ⟨byPriority, whole, merged⟩ := completion_order_irrelevant (e := crossed) (by decide)
  refine ⟨byPriority _ _ (map_name_runOf _ _) (List.reverse_perm _), whole none _ (.refl _), ?_⟩
  obtain ⟨row, -⟩ := merged ["soon", "late"] [reportOf "soon" "b.ts", reportOf "late" "a.ts"] (by decide)
    (by simp [reportOf])
    (Value.isComparable_of_texts (by simp [tagged, reportOf, findingIn]))
    (Value.isComparable_of_wholes (by simp [tagged, reportOf, findingIn]))
  obtain ⟨items, -, -, same⟩ := row fun t ht => by
    obtain ⟨r, hr, -, -, hv⟩ := mem_tagged.mp ht
    refine ⟨Severity.warn.rank, ?_⟩
    simp only [List.mem_cons, List.not_mem_nil, or_false] at hr
    rcases hr with rfl | rfl
    · rw [List.mem_singleton.mp hv]
      rfl
    · rw [List.mem_singleton.mp hv]
      rfl
  exact ⟨_, same _ (.refl _), same _ (.swap ..)⟩

end Engine

end LintLedger
