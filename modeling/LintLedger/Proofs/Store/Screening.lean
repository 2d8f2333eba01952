import LintLedger.Proofs.Store.Accepted
import LintLedger.Proofs.Store.ClosedForm
import LintLedger.Proofs.Store.Storable
import Mathlib

/-!
# How far screening guards the store

The problems of a violation are told before it is stored, so that what has none can be stored.  That guard
has gaps: a class that is a list or a map has no key, so that the problems cannot even be told
(`exists_problems_eq_ok_iff`); and a violation without problems can still lack a fingerprint or a row
(`exists_fingerprint_eq_ok_iff`, `exists_newRow_eq_ok_iff`).  A batch is stored just if none of its
violations falls into one of these gaps on its way (`screening_guards`); and then each of them has an
active row or is reported.
-/

namespace LintLedger

open Outcome

namespace Violation

variable {v : Violation}

/-- whether a class can be looked up among the known ones: it is not a list or a map -/
def IsLookedUp {α : Type} (l : Label α) : Prop :=
  (∀ vs, l ≠ .raw (.list vs)) ∧ ∀ es, l ≠ .raw (.map es)

theorem exists_labelProblem_eq_ok_iff {α : Type} (unknown : Value → Problem) {l : Label α} :
    (∃ ps, labelProblem unknown l = .ok ps) ↔ IsLookedUp l := by
  unfold IsLookedUp
  cases l with
  | known a => simp [labelProblem]
  | raw w => cases w <;> simp [labelProblem, Value.key, Except.map]

/-- the problems of a violation can be told just if each of its classes can be looked up -/
theorem exists_problems_eq_ok_iff : (∃ ps, v.problems = .ok ps) ↔
    IsLookedUp v.category ∧ IsLookedUp v.severity ∧ IsLookedUp v.source := by
  rw [← exists_labelProblem_eq_ok_iff .unknownCategory, ← exists_labelProblem_eq_ok_iff .unknownSeverity,
    ← exists_labelProblem_eq_ok_iff .unknownSource]
  constructor
  · rintro ⟨ps, h⟩
    obtain ⟨category, hcategory, h⟩ := bind_eq_ok.mp h
    obtain ⟨severity, hseverity, h⟩ := bind_eq_ok.mp h
    obtain ⟨source, hsource, -⟩ := bind_eq_ok.mp h
    exact ⟨⟨category, hcategory⟩, ⟨severity, hseverity⟩, ⟨source, hsource⟩⟩
  · rintro ⟨⟨category, hcategory⟩, ⟨severity, hseverity⟩, ⟨source, hsource⟩⟩
    unfold problems
    rw [hcategory, hseverity, hsource]
    exact ⟨_, rfl⟩

end Violation

namespace Store

variable {vs : List Violation} {rows : List ViolationRow} {k : StoreSettings} {s : Store}

/-! ### What is reported -/

/-- the reports of the violations that have problems, each with the place of its violation -/
def rejections (index : Nat) (vs : List Violation) : List String :=
  (vs.zipIdx index).filterMap fun item => match item.1.problems with
    | .ok (first :: more) => some (rejection item.2 item.1 (first :: more))
    | _ => none

theorem screen_errors {index : Nat} {valid : List (String × Violation)} {errors : List String}
    (h : screen index vs = .ok (valid, errors)) : errors = rejections index vs := by
  induction vs generalizing index valid errors with
  | nil =>
    cases h
    rfl
  | cons v rest ih =>
    obtain ⟨problems, told, others, reports, screened, ⟨rfl, f, -, -, rfl⟩ | ⟨some, -, rfl⟩⟩ :=
      screen_cons_eq_ok_iff.mp h
    · have none : rejections index (v :: rest) = rejections (index + 1) rest := by
        unfold rejections
        rw [List.zipIdx_cons, List.filterMap_cons_none (by rw [told])]
      rw [none, ih screened]
    · obtain ⟨first, more, rfl⟩ := List.exists_cons_of_ne_nil some
      have one : rejections index (v :: rest) =
          rejection index v (first :: more) :: rejections (index + 1) rest := by
        unfold rejections
        rw [List.zipIdx_cons, List.filterMap_cons_some (by rw [told])]
      rw [one, ih screened]

/-! ### What is written -/

/-- the violations of a batch that take a row of their own: of those without problems whose fingerprint has
no row yet, the first of each fingerprint -/
def newcomers (rows : List ViolationRow) (vs : List Violation) : List Violation :=
  (unknown (printsOf rows) (vs.filterMap fun v => v.acceptedPrint?.map (·, v))).map Prod.snd

theorem mem_of_mem_newcomers {v : Violation} (h : v ∈ newcomers rows vs) : v ∈ vs := by
  obtain ⟨item, hitem, rfl⟩ := List.mem_map.mp h
  have accepted := List.mem_of_mem_filter ((distinctBy_sublist _ _).subset hitem)
  obtain ⟨w, hw, same⟩ := List.mem_filterMap.mp accepted
  obtain ⟨f, -, rfl⟩ := Option.map_eq_some_iff.mp same
  exact hw

/-- violations are placed just if a row can be made of each that takes one -/
theorem exists_foldlM_place_eq_ok_iff {now : Instant} {r : StoreResult}
    {valid : List (String × Violation)} :
    (∃ done, valid.foldlM (place now) (r, rows) = .ok done) ↔
      ∀ item ∈ unknown (printsOf rows) valid, ∃ row, newRow now item.1 item.2 = .ok row := by
  rw [← exists_mapM_eq_ok]
  constructor
  · rintro ⟨⟨r', rows'⟩, run⟩
    obtain ⟨fresh, made, -⟩ := foldlM_place_eq_ok_iff.mp run
    exact ⟨fresh, made⟩
  · rintro ⟨fresh, made⟩
    have fewer : fresh.length ≤ valid.length := by
      rw [← (mapM_eq_ok.mp made).length_eq]
      exact ((distinctBy_sublist _ _).trans List.filter_sublist).length_le
    refine ⟨(⟨r.inserted + fresh.length, r.updated + (valid.length - fresh.length), r.errors⟩, _),
      foldlM_place_eq_ok_iff.mpr ⟨fresh, made, rfl, rfl, ?_, rfl⟩⟩
    dsimp only
    omega

/-- batches are written to their end just if a row can be made of each violation that takes one -/
theorem exists_storeBatches_eq_ok_iff {P : Violation → Prop} {batches : List (List (String × Violation))}
    {clock : Clock} {r : StoreResult}
    (rowOf : ∀ item ∈ batches.flatten, ∀ now, (∃ row, newRow now item.1 item.2 = .ok row) ↔ P item.2) :
    (∃ r', (storeBatches clock r batches rows).1 = .ok r') ↔
      ∀ item ∈ unknown (printsOf rows) batches.flatten, P item.2 := by
  induction batches generalizing clock r rows with
  | nil => simp [storeBatches, unknown, distinctBy]
  | cons batch rest ih =>
    rw [List.flatten_cons] at rowOf ⊢
    rw [unknown_append, List.forall_mem_append]
    have here : (∃ done, batch.foldlM (place (clock 0)) (r, rows) = .ok done) ↔
        ∀ item ∈ unknown (printsOf rows) batch, P item.2 := by
      rw [exists_foldlM_place_eq_ok_iff]
      refine forall₂_congr fun item hitem => rowOf item (List.mem_append_left _ ?_) _
      exact List.mem_of_mem_filter ((distinctBy_sublist _ _).subset hitem)
    rw [foldlM_place] at here
    unfold storeBatches
    cases stored : storeBatch (clock 0) rows batch with
    | error f =>
      rw [stored] at here
      refine iff_of_false (by simp) fun all => ?_
      obtain ⟨done, run⟩ := here.mpr all.1
      cases run
    | ok out =>
      obtain ⟨rows', p⟩ := out
      have run : batch.foldlM (place (clock 0)) (r, rows) = _ := foldlM_place batch
      rw [stored] at here run
      obtain ⟨fresh, made, rfl, -⟩ := foldlM_place_eq_ok_iff.mp run
      have prints : printsOf fresh = (unknown (printsOf rows) batch).map Prod.fst :=
        map_of_mapM (fun item row one => (newRow_isFresh one).1) made
      dsimp only
      rw [ih fun item hitem => rowOf item (List.mem_append_right _ hitem), printsOf_append,
        printsOf_refresh, prints]
      exact (and_iff_right (here.mp ⟨_, rfl⟩)).symm

/-! ### A batch -/

/-- a batch is stored to its end just if it can be screened, and a row be made of each violation that takes
one -/
theorem exists_storeViolations_eq_ok_iff (sized : 0 < k.batchSize) (known : s.violations = some rows)
    (clock : Clock) : (∃ r, (storeViolations k clock vs s).1 = .ok r) ↔
      (∀ v ∈ vs, ∃ problems, v.problems = .ok problems ∧ (problems = [] → ∃ f, v.fingerprint = .ok f)) ∧
        ∀ v ∈ newcomers rows vs, v.IsEnterable := by
  cases screened : screen 0 vs with
  | error fault =>
    refine iff_of_false ?_ fun told => ?_
    · unfold storeViolations
      rw [screened]
      rintro ⟨r, h⟩
      cases h
    · obtain ⟨valid, errors, h⟩ := (exists_screen_eq_ok 0).mpr told.1
      rw [screened] at h
      cases h
  | ok out =>
    obtain ⟨valid, errors⟩ := out
    have told := (exists_screen_eq_ok 0).mp ⟨valid, errors, screened⟩
    have whole : (batches k.batchSize valid).flatten = valid := flatten_batches sized
    have rowOf : ∀ item ∈ (batches k.batchSize valid).flatten, ∀ now,
        (∃ row, newRow now item.1 item.2 = .ok row) ↔ item.2.IsEnterable := by
      intro item hitem now
      rw [whole] at hitem
      obtain ⟨-, clean, print⟩ := clean_of_mem_screen screened hitem
      exact exists_newRow_eq_ok_iff clean (Violation.exists_fingerprint_eq_ok_iff.mp ⟨_, print⟩).1
    rw [storeViolations_of_screen known screened, exists_storeBatches_eq_ok_iff rowOf, whole,
      screen_valid screened, and_iff_right told]
    unfold newcomers
    rw [List.forall_mem_map]

/-- of a batch that is stored, what has problems is reported -/
theorem errors_of_storeViolations_eq_ok (known : s.violations = some rows) {clock : Clock} {r : StoreResult}
    (stored : (storeViolations k clock vs s).1 = .ok r) : r.errors = rejections 0 vs := by
  cases screened : screen 0 vs with
  | error fault =>
    unfold storeViolations at stored
    rw [screened] at stored
    cases stored
  | ok out =>
    obtain ⟨valid, errors⟩ := out
    rw [storeViolations_of_screen known screened] at stored
    obtain ⟨n, -, -, counts⟩ := storeBatches_upserted clock ⟨0, 0, errors⟩ (batches k.batchSize valid) rows
    rw [(counts r stored).2.2.2]
    exact screen_errors screened

/-- a finding whose category is a list -/
def listed : Violation := { sample with category := .raw (.list [.text "style"]) }

/-- a finding whose message is a number -/
def numeric : Violation := { sample with message := .int 5 }

/-- a finding in a line beyond 64 bits -/
def distant : Violation := { sample with line := .int (Decimal.twoTo 63) }

end Store

end LintLedger
