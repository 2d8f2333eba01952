import LintLedger.Proofs.Store.Accepted
import Mathlib

/-!
# Storing in batches and one by one

Violations are written in batches, each of which looks up the rows of its fingerprints once.  What comes
of it is what comes of looking at one violation after another (`storeViolations_eq_ok_iff`).  A batch
keeps what it will write beside the rows, and one more violation changes that as it would change the rows
themselves (`place_outcome`); so a batch is a fold over its violations, and it does not matter where one
batch ends and the next begins.  Nor does it matter that all violations are screened before the first is
written (`foldlM_storeOne_eq_ok_iff`).
-/

namespace LintLedger

open Outcome

namespace Store

variable {now : Instant} {rows rows' : List ViolationRow} {r r' : StoreResult}
  {p : Pending} {f : String} {vs : List Violation}

/-! ### One violation after another -/

/-- rows of which those with some fingerprints are seen -/
def refresh (now : Instant) (prints : List String) (rows : List ViolationRow) : List ViolationRow :=
  rows.map fun row => if row.fingerprint ∈ prints then row.seen now else row

/-- one violation without problems written: seen again if its fingerprint has a row, a new row otherwise -/
def place (now : Instant) (done : StoreResult × List ViolationRow) (item : String × Violation) :
    Except Failure (StoreResult × List ViolationRow) :=
  if done.2.any (isRow item.1) then
    .ok ({ done.1 with updated := done.1.updated + 1 }, refresh now [item.1] done.2)
  else (newRow now item.1 item.2).map fun row =>
    ({ done.1 with inserted := done.1.inserted + 1 }, done.2 ++ [row])

/-- one violation with its place among all of them stored: reported if it has problems, written
otherwise -/
def storeOne (now : Instant) (done : StoreResult × List ViolationRow) (item : Violation × Nat) :
    Except Failure (StoreResult × List ViolationRow) := do
  let problems ← orFail item.1.problems
  if problems.isEmpty then
    let fingerprint ← orFail item.1.fingerprint
    place now done (fingerprint, item.1)
  else
    let errors := done.1.errors ++ [rejection item.2 item.1 problems]
    return ({ done.1 with errors := errors }, done.2)

/-- violations stored one by one in their order -/
def storeOneByOne (now : Instant) (vs : List Violation) (rows : List ViolationRow) :
    Except Failure (StoreResult × List ViolationRow) :=
  vs.zipIdx.foldlM (storeOne now) (⟨0, 0, []⟩, rows)

/-! ### Rows that are seen -/

@[simp]
theorem seen_seen (row : ViolationRow) : (row.seen now).seen now = row.seen now := rfl

theorem newRow_seen {v : Violation} {row : ViolationRow} (h : newRow now f v = .ok row) :
    row.seen now = row := by
  obtain ⟨-, ⟨-, last⟩, active, unresolved⟩ := newRow_isFresh h
  cases row
  simp only at last active unresolved
  subst last active unresolved
  rfl

@[simp]
theorem printsOf_refresh {prints : List String} : printsOf (refresh now prints rows) = printsOf rows := by
  unfold printsOf refresh
  rw [List.map_map]
  refine List.map_congr_left fun row _ => ?_
  dsimp only [Function.comp]
  split <;> rfl

/-- rows that are seen at one moment are seen all at once -/
theorem refresh_append {early late : List String} :
    refresh now (early ++ late) rows = refresh now late (refresh now early rows) := by
  unfold refresh
  rw [List.map_map]
  refine List.map_congr_left fun row _ => ?_
  simp only [Function.comp, List.mem_append]
  by_cases one : row.fingerprint ∈ early
  · simp [one]
  · simp [one]

theorem refresh_snoc {prints : List String} {row : ViolationRow} (seen : row.seen now = row) :
    refresh now prints (rows ++ [row]) = refresh now prints rows ++ [row] := by
  unfold refresh
  rw [List.map_append, List.map_singleton, seen, ite_self]

theorem refresh_of_not_mem (absent : f ∉ printsOf rows) : refresh now [f] rows = rows := by
  refine (List.map_congr_left fun row hrow => if_neg fun one => absent ?_).trans (List.map_id rows)
  exact mem_printsOf.mpr ⟨row, hrow, List.mem_singleton.mp one⟩

/-! ### A batch is the fold over it -/

/-- a result with what a batch has written counted in -/
def counted (r : StoreResult) (p : Pending) : StoreResult :=
  { r with
    inserted := r.inserted + p.inserted.length
    updated := r.updated + p.seen.length }

/-- what is done once a batch that has been taken up so far has been written -/
def Pending.outcome (now : Instant) (rows : List ViolationRow) (r : StoreResult) (p : Pending) :
    StoreResult × List ViolationRow :=
  (counted r p, p.apply now rows)

theorem Pending.outcome_empty : ({} : Pending).outcome now rows r = (r, rows) := by
  simp [Pending.outcome, counted, Pending.apply]

theorem any_isRow_apply :
    (p.apply now rows).any (isRow f) = (rows.any (isRow f) || p.inserted.any (isRow f)) := by
  rw [Bool.eq_iff_iff, Bool.or_eq_true, any_isRow, any_isRow, any_isRow, printsOf_apply, List.mem_append]

theorem apply_eq_refresh : p.apply now rows = refresh now p.seen (rows ++ p.inserted) := by
  simp [Pending.apply, refresh]

theorem apply_seen :
    ({ p with seen := p.seen ++ [f] } : Pending).apply now rows = refresh now [f] (p.apply now rows) := by
  rw [apply_eq_refresh, apply_eq_refresh, refresh_append]

theorem apply_inserted {row : ViolationRow} (seen : row.seen now = row) :
    ({ p with inserted := p.inserted ++ [row] } : Pending).apply now rows =
      p.apply now rows ++ [row] := by
  rw [apply_eq_refresh, apply_eq_refresh, ← List.append_assoc, refresh_snoc seen]

/-- one more violation changes a batch as it changes the rows -/
theorem place_outcome (item : String × Violation) :
    place now (p.outcome now rows r) item = (pend rows now p item).map (·.outcome now rows r) := by
  have looked : (p.outcome now rows r).2.any (isRow item.1) =
      (rows.any (isRow item.1) || p.inserted.any (isRow item.1)) := any_isRow_apply
  unfold place pend
  by_cases known : (rows.any (isRow item.1) || p.inserted.any (isRow item.1)) = true
  · rw [if_pos known, if_pos (looked.trans known)]
    simp [Except.map, Pending.outcome, counted, apply_seen, Nat.add_assoc]
  · rw [if_neg known, if_neg (looked ▸ known)]
    cases made : newRow now item.1 item.2 with
    | error e => rfl
    | ok row => simp [Except.map, Pending.outcome, counted, apply_inserted (newRow_seen made), Nat.add_assoc]

theorem foldlM_place_outcome (batch : List (String × Violation)) :
    batch.foldlM (place now) (p.outcome now rows r) =
      (batch.foldlM (pend rows now) p).map (·.outcome now rows r) := by
  induction batch generalizing p with
  | nil => rfl
  | cons item rest ih =>
    rw [List.foldlM_cons, List.foldlM_cons, place_outcome]
    cases pend rows now p item with
    | error e => rfl
    | ok q => exact ih

/-- one batch is the fold over its violations -/
theorem foldlM_place (batch : List (String × Violation)) :
    batch.foldlM (place now) (r, rows) =
      (storeBatch now rows batch).map fun out => (counted r out.2, out.1) := by
  rw [← Pending.outcome_empty, foldlM_place_outcome]
  unfold storeBatch
  cases batch.foldlM (pend rows now) {} <;> rfl

/-- batches written to their end are the fold over all their violations -/
theorem storeBatches_eq_ok_iff {batches : List (List (String × Violation))} :
    (∃ clock, storeBatches (.still now) r batches rows = (.ok r', rows', clock)) ↔
      batches.flatten.foldlM (place now) (r, rows) = .ok (r', rows') := by
  induction batches generalizing r rows with
  | nil => simp [storeBatches, pure, Except.pure]
  | cons batch rest ih =>
    rw [List.flatten_cons, List.foldlM_append, foldlM_place]
    unfold storeBatches
    cases stored : storeBatch now rows batch with
    | error e => simp [Clock.still, stored, Except.map, bind, Except.bind]
    | ok out =>
      dsimp only [Clock.still]
      rw [stored]
      exact ih

/-! ### Screening first, or along the way -/

theorem place_errors (errors : List String) (item : String × Violation) :
    place now ({ r with errors := errors }, rows) item =
      (place now (r, rows) item).map fun done => ({ done.1 with errors := errors }, done.2) := by
  unfold place
  dsimp only
  split
  · rfl
  · cases newRow now item.1 item.2 <;> rfl

theorem errors_place {item : String × Violation} {done : StoreResult × List ViolationRow}
    (h : place now (r, rows) item = .ok done) : done.1.errors = r.errors := by
  unfold place at h
  split at h
  · cases h
    rfl
  · obtain ⟨row, -, rfl⟩ := map_eq_ok.mp h
    rfl

/-- what becomes of one violation: it is written under its fingerprint, or reported -/
theorem storeOne_eq_ok_iff {done mid : StoreResult × List ViolationRow} {v : Violation} {index : Nat} :
    storeOne now done (v, index) = .ok mid ↔ ∃ problems, v.problems = .ok problems ∧
      (problems = [] ∧ (∃ f, v.fingerprint = .ok f ∧ place now done (f, v) = .ok mid) ∨
        problems ≠ [] ∧
          mid = ({ done.1 with errors := done.1.errors ++ [rejection index v problems] }, done.2)) := by
  unfold storeOne
  simp only [bind_eq_ok, orFail_eq_ok]
  refine exists_congr fun problems => and_congr_right fun _ => ?_
  cases problems with
  | nil => simp [bind_eq_ok, orFail_eq_ok]
  | cons first more =>
    simp only [List.isEmpty_cons, reduceCtorEq, false_and, false_or, ne_eq, not_false_eq_true, true_and]
    exact ⟨fun h => by cases h; rfl, fun h => by rw [h]; rfl⟩

/-- what screening says of the first violation: it has a fingerprint, or is reported -/
theorem screen_cons_eq_ok_iff {index : Nat} {v : Violation} {valid : List (String × Violation)}
    {errors : List String} :
    screen index (v :: vs) = .ok (valid, errors) ↔ ∃ problems, v.problems = .ok problems ∧
      ∃ others reports, screen (index + 1) vs = .ok (others, reports) ∧
        (problems = [] ∧ (∃ f, v.fingerprint = .ok f ∧ valid = (f, v) :: others ∧ errors = reports) ∨
          problems ≠ [] ∧ valid = others ∧ errors = rejection index v problems :: reports) := by
  rw [screen, bind_eq_ok]
  refine exists_congr fun problems => and_congr_right fun _ => ?_
  cases problems with
  | nil =>
    simp only [List.isEmpty_nil, if_true, bind_eq_ok, Prod.exists, true_and, ne_eq, not_true_eq_false,
      false_and, or_false]
    constructor
    · rintro ⟨f, print, others, reports, screened, h⟩
      cases h
      exact ⟨others, errors, screened, f, print, rfl, rfl⟩
    · rintro ⟨others, reports, screened, f, print, rfl, rfl⟩
      exact ⟨f, print, others, errors, screened, rfl⟩
  | cons first more =>
    simp only [List.isEmpty_cons, Bool.false_eq_true, if_false, bind_eq_ok, Prod.exists, reduceCtorEq,
      false_and, false_or, ne_eq, not_false_eq_true, true_and]
    constructor
    · rintro ⟨others, reports, screened, h⟩
      cases h
      exact ⟨valid, reports, screened, rfl, rfl⟩
    · rintro ⟨others, reports, screened, rfl, rfl⟩
      exact ⟨valid, reports, screened, rfl⟩

/-- violations that are stored one by one are screened as if they had been screened before -/
theorem foldlM_storeOne_eq_ok_iff {index : Nat} {done : StoreResult × List ViolationRow} :
    (vs.zipIdx index).foldlM (storeOne now) (r, rows) = .ok done ↔
      ∃ valid errors, screen index vs = .ok (valid, errors) ∧
        valid.foldlM (place now) ({ r with errors := r.errors ++ errors }, rows) = .ok done := by
  induction vs generalizing index r rows with
  | nil => simp [screen]
  | cons v rest ih =>
    rw [List.zipIdx_cons, List.foldlM_cons, bind_eq_ok]
    constructor
    · rintro ⟨mid, one, run⟩
      obtain ⟨problems, told, ⟨none, f, print, placed⟩ | ⟨some, rfl⟩⟩ := storeOne_eq_ok_iff.mp one
      · obtain ⟨valid, errors, screened, run⟩ := ih.mp run
        refine ⟨(f, v) :: valid, errors, screen_cons_eq_ok_iff.mpr
          ⟨problems, told, valid, errors, screened, .inl ⟨none, f, print, rfl, rfl⟩⟩, ?_⟩
        rw [List.foldlM_cons, place_errors, placed, ← errors_place placed]
        exact run
      · obtain ⟨valid, errors, screened, run⟩ := ih.mp run
        refine ⟨valid, _, screen_cons_eq_ok_iff.mpr
          ⟨problems, told, valid, errors, screened, .inr ⟨some, rfl, rfl⟩⟩, ?_⟩
        simpa using run
    · rintro ⟨valid, errors, screened, run⟩
      obtain ⟨problems, told, others, reports, screenedRest,
        ⟨none, f, print, rfl, rfl⟩ | ⟨some, rfl, rfl⟩⟩ := screen_cons_eq_ok_iff.mp screened
      · rw [List.foldlM_cons, place_errors, bind_eq_ok] at run
        obtain ⟨mid', placed', run⟩ := run
        obtain ⟨mid, placed, rfl⟩ := map_eq_ok.mp placed'
        refine ⟨mid, storeOne_eq_ok_iff.mpr ⟨problems, told, .inl ⟨none, f, print, placed⟩⟩,
          ih.mpr ⟨others, errors, screenedRest, ?_⟩⟩
        rw [errors_place placed]
        exact run
      · refine ⟨_, storeOne_eq_ok_iff.mpr ⟨problems, told, .inr ⟨some, rfl⟩⟩,
          ih.mpr ⟨valid, reports, screenedRest, ?_⟩⟩
        simpa using run

/-- the batches that a store writes are those of the violations that screening has kept -/
theorem storeViolations_of_screen {k : StoreSettings} {s : Store} {clock : Clock}
    {valid : List (String × Violation)} {errors : List String} (known : s.violations = some rows)
    (screened : screen 0 vs = .ok (valid, errors)) :
    storeViolations k clock vs s =
      ((storeBatches clock ⟨0, 0, errors⟩ (batches k.batchSize valid) rows).1,
        { s with
          violations := some (storeBatches clock ⟨0, 0, errors⟩ (batches k.batchSize valid) rows).2.1 },
        (storeBatches clock ⟨0, 0, errors⟩ (batches k.batchSize valid) rows).2.2) := by
  have kept : s = { s with violations := some rows } := by rw [← known]
  unfold storeViolations
  rw [screened]
  dsimp only
  split
  · rename_i none
    rw [List.isEmpty_iff.mp none]
    exact congrArg (fun s => (_, s, clock)) kept
  · rw [known]

/-- storing in batches ends well just if storing one by one does, and then does the same -/
theorem storeViolations_eq_ok_iff {k : StoreSettings} {s t : Store} (sized : 0 < k.batchSize)
    (known : s.violations = some rows) :
    (∃ clock, storeViolations k (.still now) vs s = (.ok r, t, clock)) ↔
      ∃ rows', storeOneByOne now vs rows = .ok (r, rows') ∧
        t = { s with violations := some rows' } := by
  unfold storeOneByOne
  simp only [foldlM_storeOne_eq_ok_iff, List.nil_append]
  constructor
  · rintro ⟨clock, h⟩
    cases screened : screen 0 vs with
    | error e => simp [storeViolations, screened] at h
    | ok out =>
      obtain ⟨valid, errors⟩ := out
      rw [storeViolations_of_screen known screened] at h
      obtain ⟨stored, h⟩ := Prod.mk.inj h
      obtain ⟨left, read⟩ := Prod.mk.inj h
      have run := storeBatches_eq_ok_iff.mp ⟨clock, Prod.ext stored (Prod.ext rfl read)⟩
      rw [flatten_batches sized] at run
      exact ⟨_, ⟨valid, errors, rfl, run⟩, left.symm⟩
  · rintro ⟨rows', ⟨valid, errors, screened, run⟩, rfl⟩
    have whole : (batches k.batchSize valid).flatten = valid := flatten_batches sized
    rw [← whole, ← storeBatches_eq_ok_iff] at run
    obtain ⟨clock, stored⟩ := run
    exact ⟨clock, by rw [storeViolations_of_screen known screened, stored]⟩

end Store

end LintLedger
