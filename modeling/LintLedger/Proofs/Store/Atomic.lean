import LintLedger.Proofs.Store.Screening
import Mathlib

/-!
# Batches are atomic

Each batch of violations is written in a session of its own, which is kept whole if it ends well and undone
if it fails.  It may fail by itself, over a violation of which no row can be made or a table that is lost; and
trouble from outside may hit it, however many of its violations have been taken up by then (`session`).
Where the work on the nth batch fails, the store is as if no more than the batches before it had been stored
(`upserts_atomic`): the failure is found by induction over the batches (`sessions_eq_error_iff`), the batches
before it are those of their own violations (`batches_take_flatten`), which pass screening as they did
(`screen_accepted`), and a batch leaves the rows of all other fingerprints alone
(`filter_isRow_storeBatch`).
-/

namespace LintLedger

open Outcome

namespace Store

variable {k : StoreSettings} {clock : Clock} {now : Instant} {s t : Store} {rows rows' : List ViolationRow}
  {table : Table ViolationRow} {vs : List Violation} {valid batch : List (String × Violation)}
  {errors : List String} {r : StoreResult} {g : String}

/-! ### Sessions that trouble may hit -/

/-- what the work on a batch fails with from outside, if it does, once a number of its violations have been
taken up -/
abbrev Trouble : Type := Option (ℕ × Failure)

/-- the work on one batch in a session on the table of violations -/
def session (trouble : Trouble) (now : Instant) (table : Table ViolationRow)
    (batch : List (String × Violation)) : Except Failure (List ViolationRow × Pending) := do
  let rows ← need .storeViolations table
  match trouble with
  | none => storeBatch now rows batch
  | some (taken, f) =>
    let _ ← storeBatch now rows (batch.take taken)
    throw f

/-- batches written each in its session, up to the first that fails and is undone -/
def sessions (troubles : ℕ → Trouble) (clock : Clock) (r : StoreResult) :
    List (List (String × Violation)) → Table ViolationRow →
      Except Failure StoreResult × Table ViolationRow × Clock
  | [], table => (.ok r, table, clock)
  | batch :: rest, table =>
    match session (troubles 0) (clock 0) table batch with
    | .error f => (.error f, table, clock.next)
    | .ok (rows, p) => sessions (fun n => troubles (n + 1)) clock.next (counted r p) rest (some rows)

/-- violations stored amid troubles, each of which hits the work on one batch -/
def storeAmid (troubles : ℕ → Trouble) (k : StoreSettings) (clock : Clock) (vs : List Violation) (s : Store) :
    Except Failure StoreResult × Store × Clock :=
  match screen 0 vs with
  | .error f => (.error (.fault f), s, clock)
  | .ok (valid, errors) =>
    let (outcome, table, clock) :=
      sessions troubles clock ⟨0, 0, errors⟩ (batches k.batchSize valid) s.violations
    (outcome, { s with violations := table }, clock)

/-- a session ends well just if nothing hits it and its batch can be written -/
theorem session_eq_ok_iff {trouble : Trouble} {out : List ViolationRow × Pending} :
    session trouble now table batch = .ok out ↔
      trouble = none ∧ ∃ rows, table = some rows ∧ storeBatch now rows batch = .ok out := by
  unfold session
  simp only [bind_eq_ok, need_eq_ok]
  cases trouble with
  | none => simp
  | some hit =>
    refine iff_of_false ?_ (by simp)
    rintro ⟨rows, -, h⟩
    obtain ⟨taken, -, h⟩ := bind_eq_ok.mp h
    cases h

/-- without trouble, sessions are the batches as they are written -/
theorem sessions_untroubled (batches : List (List (String × Violation))) :
    sessions (fun _ => none) clock r batches (some rows) =
      ((storeBatches clock r batches rows).1, some (storeBatches clock r batches rows).2.1,
        (storeBatches clock r batches rows).2.2) := by
  induction batches generalizing clock r rows with
  | nil => rfl
  | cons batch rest ih =>
    have alone : session none (clock 0) (some rows) batch = storeBatch (clock 0) rows batch := rfl
    unfold sessions storeBatches
    rw [alone]
    cases storeBatch (clock 0) rows batch with
    | error f => rfl
    | ok out => exact ih

/-- storing without trouble is storing -/
theorem storeAmid_untroubled : storeAmid (fun _ => none) k clock vs s = storeViolations k clock vs s := by
  unfold storeAmid
  cases screened : screen 0 vs with
  | error f =>
    unfold storeViolations
    rw [screened]
  | ok out =>
    obtain ⟨valid, errors⟩ := out
    cases known : s.violations with
    | some rows =>
      rw [storeViolations_of_screen known screened]
      dsimp only
      rw [sessions_untroubled]
    | none =>
      have kept : s = { s with violations := none } := by rw [← known]
      unfold storeViolations
      rw [screened, known]
      cases valid with
      | nil => exact congrArg (fun s => (_, s, clock)) kept.symm
      | cons item rest => exact congrArg (fun s => (_, s, clock.next)) kept.symm

/-- what is left amid troubles: the table of violations as the sessions leave it, and all else as it was -/
theorem storeAmid_eq_iff {troubles : ℕ → Trouble} (screened : screen 0 vs = .ok (valid, errors))
    {outcome : Except Failure StoreResult} {clock' : Clock} :
    storeAmid troubles k clock vs s = (outcome, t, clock') ↔
      t = { s with violations := t.violations } ∧
        sessions troubles clock ⟨0, 0, errors⟩ (batches k.batchSize valid) s.violations =
          (outcome, t.violations, clock') := by
  unfold storeAmid
  rw [screened]
  constructor
  · intro h
    obtain ⟨ended, h⟩ := Prod.mk.inj h
    obtain ⟨rfl, read⟩ := Prod.mk.inj h
    exact ⟨rfl, Prod.ext ended (Prod.ext rfl read)⟩
  · rintro ⟨same, h⟩
    dsimp only
    rw [h, ← same]

/-! ### The batch that fails -/

/-- whether batches are written to their end does not depend on what was counted before -/
theorem sessions_recounted {troubles : ℕ → Trouble} {batches : List (List (String × Violation))}
    {table' : Table ViolationRow} {clock' : Clock} (r₁ r₂ : StoreResult)
    (h : ∃ r', sessions troubles clock r₁ batches table = (.ok r', table', clock')) :
    ∃ r', sessions troubles clock r₂ batches table = (.ok r', table', clock') := by
  induction batches generalizing troubles clock r₁ r₂ table with
  | nil =>
    obtain ⟨r', h⟩ := h
    cases h
    exact ⟨r₂, rfl⟩
  | cons batch rest ih =>
    unfold sessions at h ⊢
    cases done : session (troubles 0) (clock 0) table batch with
    | error f =>
      rw [done] at h
      obtain ⟨r', h⟩ := h
      cases h
    | ok out =>
      rw [done] at h
      exact ih _ _ h

/-- where the sessions fail: at the first batch that does, with what the batches before it have left -/
theorem sessions_eq_error_iff {troubles : ℕ → Trouble} {batches : List (List (String × Violation))}
    {table' : Table ViolationRow} {f : Failure} :
    (∃ clock', sessions troubles clock r batches table = (.error f, table', clock')) ↔
      ∃ n batch, batches[n]? = some batch ∧ (∀ i < n, troubles i = none) ∧
        (∃ r' clock', sessions (fun _ => none) clock r (batches.take n) table = (.ok r', table', clock')) ∧
        session (troubles n) (clock n) table' batch = .error f := by
  induction batches generalizing troubles clock r table with
  | nil => simp [sessions]
  | cons batch rest ih =>
    cases done : session (troubles 0) (clock 0) table batch with
    | error e =>
      have ends : sessions troubles clock r (batch :: rest) table = (.error e, table, clock.next) := by
        unfold sessions
        rw [done]
      rw [ends]
      constructor
      · rintro ⟨clock', h⟩
        cases h
        exact ⟨0, batch, rfl, nofun, ⟨r, clock, rfl⟩, done⟩
      · rintro ⟨n, batch', here, calm, ⟨r', clock', before⟩, fails⟩
        cases n with
        | zero =>
          cases here
          cases before
          rw [done] at fails
          cases fails
          exact ⟨_, rfl⟩
        | succ n =>
          rw [List.take_succ_cons, sessions, ← calm 0 (Nat.succ_pos n), done] at before
          cases before
    | ok out =>
      obtain ⟨calm, -⟩ := session_eq_ok_iff.mp done
      have alone : session none (clock 0) table batch = .ok out := calm ▸ done
      have goes : sessions troubles clock r (batch :: rest) table =
          sessions (fun n => troubles (n + 1)) clock.next (counted r out.2) rest (some out.1) := by
        conv_lhs => unfold sessions
        rw [done]
      rw [goes, ih]
      constructor
      · rintro ⟨n, batch', here, later, ⟨r', clock', before⟩, fails⟩
        refine ⟨n + 1, batch', here, fun i hi => ?_, ⟨r', clock', ?_⟩, fails⟩
        · cases i with
          | zero => exact calm
          | succ i => exact later i (Nat.lt_of_succ_lt_succ hi)
        · rw [List.take_succ_cons, sessions, alone]
          exact before
      · rintro ⟨n, batch', here, later, ⟨r', clock', before⟩, fails⟩
        cases n with
        | zero =>
          cases here
          cases before
          rw [done] at fails
          cases fails
        | succ n =>
          rw [List.take_succ_cons, sessions, alone] at before
          exact ⟨n, batch', here, fun i hi => later (i + 1) (Nat.succ_lt_succ hi), ⟨r', clock', before⟩,
            fails⟩

/-! ### The batches before it -/

/-- what screening has kept passes it once more, and nothing is reported -/
theorem screen_accepted {items : List (String × Violation)} (index : ℕ)
    (h : ∀ item ∈ items, item.2.problems = .ok [] ∧ item.2.fingerprint = .ok item.1) :
    screen index (items.map Prod.snd) = .ok (items, []) := by
  induction items generalizing index with
  | nil => rfl
  | cons item rest ih =>
    obtain ⟨clean, print⟩ := h item List.mem_cons_self
    exact screen_cons_eq_ok_iff.mpr ⟨[], clean, rest, [],
      ih (index + 1) fun other ho => h other (List.mem_cons_of_mem item ho), .inl ⟨rfl, item.1, print, rfl, rfl⟩⟩

/-- the first few batches of violations -/
def leading (k : StoreSettings) (valid : List (String × Violation)) (n : ℕ) :
    List (List (String × Violation)) :=
  (batches k.batchSize valid).take n

/-- the first few batches are what is written of their own violations -/
theorem storeViolations_leading (sized : 0 < k.batchSize) (screened : screen 0 vs = .ok (valid, errors))
    (n : ℕ) (r : StoreResult) :
    (∃ r' clock', storeViolations k clock ((leading k valid n).flatten.map Prod.snd) s = (.ok r', t, clock')) ↔
      t = { s with violations := t.violations } ∧
        ∃ r' clock', sessions (fun _ => none) clock r (leading k valid n) s.violations =
          (.ok r', t.violations, clock') := by
  have kept : ∀ item ∈ (leading k valid n).flatten,
      item.2.problems = .ok [] ∧ item.2.fingerprint = .ok item.1 := fun item hitem =>
    (clean_of_mem_screen screened (mem_of_mem_take_batches hitem)).2
  have again : batches k.batchSize (leading k valid n).flatten = leading k valid n :=
    batches_take_flatten sized n valid
  simp only [← storeAmid_untroubled, storeAmid_eq_iff (screen_accepted 0 kept), again]
  constructor
  · rintro ⟨r', clock', same, h⟩
    obtain ⟨r'', h⟩ := sessions_recounted ⟨0, 0, []⟩ r ⟨r', h⟩
    exact ⟨same, r'', clock', h⟩
  · rintro ⟨same, r', clock', h⟩
    obtain ⟨r'', h⟩ := sessions_recounted r ⟨0, 0, []⟩ ⟨r', h⟩
    exact ⟨r'', clock', same, h⟩

/-! ### Rows that are left alone -/

theorem filter_isRow_refresh {prints : List String} (other : g ∉ prints) :
    (refresh now prints rows).filter (isRow g) = rows.filter (isRow g) := by
  unfold refresh
  rw [List.filter_map]
  have same : isRow g ∘ (fun row => if row.fingerprint ∈ prints then row.seen now else row) = isRow g := by
    funext row
    dsimp only [Function.comp]
    split <;> rfl
  rw [same]
  refine (List.map_congr_left fun row hrow => if_neg fun written => other ?_).trans (List.map_id _)
  have own : row.fingerprint = g := by simpa [isRow] using (List.mem_filter.mp hrow).2
  exact own ▸ written

/-- a batch leaves the rows of fingerprints that are not in it as they are -/
theorem filter_isRow_storeBatch {p : Pending} (h : storeBatch now rows batch = .ok (rows', p))
    (other : g ∉ batch.map Prod.fst) : rows'.filter (isRow g) = rows.filter (isRow g) := by
  have run : batch.foldlM (place now) (⟨0, 0, []⟩, rows) = .ok (counted ⟨0, 0, []⟩ p, rows') := by
    rw [foldlM_place, h]
    rfl
  obtain ⟨fresh, made, rfl, -⟩ := foldlM_place_eq_ok_iff.mp run
  have prints : printsOf fresh = (unknown (printsOf rows) batch).map Prod.fst :=
    map_of_mapM (fun item row one => (newRow_isFresh one).1) made
  have new : fresh.filter (isRow g) = [] := by
    refine List.filter_eq_nil_iff.mpr fun row hrow own => other ?_
    have mem : row.fingerprint ∈ printsOf fresh := mem_printsOf.mpr ⟨row, hrow, rfl⟩
    rw [prints] at mem
    obtain ⟨item, hitem, same⟩ := List.mem_map.mp mem
    have own : row.fingerprint = g := by simpa [isRow] using own
    exact List.mem_map.mpr ⟨item, List.mem_of_mem_filter ((distinctBy_sublist _ _).subset hitem),
      same.trans own⟩
  rw [List.filter_append, new, List.append_nil, filter_isRow_refresh other]

/-- nor do any batches -/
theorem filter_isRow_sessions {troubles : ℕ → Trouble} {batches : List (List (String × Violation))}
    {r' : StoreResult} {clock' : Clock}
    (h : sessions troubles clock r batches (some rows) = (.ok r', some rows', clock'))
    (other : g ∉ printsIn batches) : rows'.filter (isRow g) = rows.filter (isRow g) := by
  induction batches generalizing troubles clock r rows with
  | nil =>
    cases h
    rfl
  | cons batch rest ih =>
    unfold sessions at h
    rw [printsIn, List.flatten_cons, List.map_append, List.mem_append, not_or] at other
    cases done : session (troubles 0) (clock 0) (some rows) batch with
    | error f =>
      rw [done] at h
      cases h
    | ok out =>
      rw [done] at h
      obtain ⟨-, mid, known, stored⟩ := session_eq_ok_iff.mp done
      cases known
      exact (ih h other.2).trans (filter_isRow_storeBatch stored other.1)

/-- the work on a batch fails just if something hits it, or no row can be made of a violation that takes one -/
theorem exists_session_eq_error_iff (screened : screen 0 vs = .ok (valid, errors))
    (among : ∀ item ∈ batch, item ∈ valid) {trouble : Trouble} :
    (∃ f, session trouble now (some rows) batch = .error f) ↔
      trouble ≠ none ∨ ∃ item ∈ unknown (printsOf rows) batch, ¬ item.2.IsEnterable := by
  have written : (∃ out, storeBatch now rows batch = .ok out) ↔
      ∀ item ∈ unknown (printsOf rows) batch, item.2.IsEnterable := by
    have placed : (∃ out, storeBatch now rows batch = .ok out) ↔
        ∃ done, batch.foldlM (place now) (⟨0, 0, []⟩, rows) = .ok done := by
      rw [foldlM_place]
      cases storeBatch now rows batch <;> simp [Except.map]
    rw [placed, exists_foldlM_place_eq_ok_iff]
    refine forall₂_congr fun item hitem => ?_
    have mem : item ∈ batch := List.mem_of_mem_filter ((distinctBy_sublist _ _).subset hitem)
    obtain ⟨-, clean, print⟩ := clean_of_mem_screen screened (among item mem)
    exact exists_newRow_eq_ok_iff clean (Violation.exists_fingerprint_eq_ok_iff.mp ⟨_, print⟩).1
  have ends : (∃ out, session trouble now (some rows) batch = .ok out) ↔
      trouble = none ∧ ∀ item ∈ unknown (printsOf rows) batch, item.2.IsEnterable := by
    rw [← written]
    simp [session_eq_ok_iff]
  have fails : (∃ f, session trouble now (some rows) batch = .error f) ↔
      ¬ ∃ out, session trouble now (some rows) batch = .ok out := by
    cases session trouble now (some rows) batch <;> simp
  rw [fails, ends, not_and_or]
  push Not
  rfl

/-- **Batches are atomic.** Whatever is in the store, however many violations are written at a time and
whatever troubles hit the work on which batches, storing fails just if the work on some batch fails; and then
the store is as if the violations of the batches before it had been stored and no others.  So no other table
is changed, and no row is written, seen or made active again whose fingerprint is not in one of these.
The work on a batch fails just if trouble hits it, however far it has come, or if no row can be made of some
violation that takes one, which has a number that no column holds or a rule or an advice that cannot be
written.  If no trouble hits any batch, this is what storing does. -/
theorem upserts_atomic (sized : 0 < k.batchSize) (screened : screen 0 vs = .ok (valid, errors))
    (clock : Clock) (s : Store) :
    storeAmid (fun _ => none) k clock vs s = storeViolations k clock vs s ∧
    (∀ troubles f t, (∃ clock', storeAmid troubles k clock vs s = (.error f, t, clock')) ↔
      ∃ n batch, (batches k.batchSize valid)[n]? = some batch ∧ (∀ i < n, troubles i = none) ∧
        (∃ r clock', storeViolations k clock ((leading k valid n).flatten.map Prod.snd) s =
          (.ok r, t, clock')) ∧
        session (troubles n) (clock n) t.violations batch = .error f) ∧
    (∀ n r t clock', storeViolations k clock ((leading k valid n).flatten.map Prod.snd) s =
        (.ok r, t, clock') →
      t = { s with violations := t.violations } ∧
      ∀ rows rows', s.violations = some rows → t.violations = some rows' →
        ∀ g, g ∉ printsIn (leading k valid n) → rows'.filter (isRow g) = rows.filter (isRow g)) ∧
    ∀ batch ∈ batches k.batchSize valid, ∀ trouble now rows,
      (∃ f, session trouble now (some rows) batch = .error f) ↔
        trouble ≠ none ∨ ∃ item ∈ unknown (printsOf rows) batch, ¬ item.2.IsEnterable := by
  refine ⟨storeAmid_untroubled, fun troubles f t => ?_, fun n r t clock' stored => ?_,
    fun batch hbatch trouble now rows => exists_session_eq_error_iff screened fun item hitem =>
      mem_of_mem_batches (List.mem_flatten.mpr ⟨batch, hbatch, hitem⟩)⟩
  · have left : (∃ clock', storeAmid troubles k clock vs s = (.error f, t, clock')) ↔
        t = { s with violations := t.violations } ∧
          ∃ clock', sessions troubles clock ⟨0, 0, errors⟩ (batches k.batchSize valid) s.violations =
            (.error f, t.violations, clock') := by
      simp only [storeAmid_eq_iff screened, exists_and_left]
    rw [left, sessions_eq_error_iff]
    simp only [storeViolations_leading sized screened _ ⟨0, 0, errors⟩]
    constructor
    · rintro ⟨same, n, batch, here, calm, before, fails⟩
      exact ⟨n, batch, here, calm, ⟨same, before⟩, fails⟩
    · rintro ⟨n, batch, here, calm, ⟨same, before⟩, fails⟩
      exact ⟨same, n, batch, here, calm, before, fails⟩
  · obtain ⟨same, r', clock', h⟩ := (storeViolations_leading sized screened n ⟨0, 0, []⟩).mp ⟨r, clock', stored⟩
    refine ⟨same, fun rows rows' known known' g other => ?_⟩
    rw [known, known'] at h
    exact filter_isRow_sessions h other

/-- four violations, of which the last is in a line that no column holds -/
def crowded : List Violation :=
  [sample, { sample with line := .int 2 }, { sample with line := .int 3 }, distant]

theorem upserts_atomic_crowded : ∃ f t clock' valid n r clock'',
    storeViolations { batchSize := 2 } (.still ⟨3⟩) crowded settledStore = (.error f, t, clock') ∧
      storeViolations { batchSize := 2 } (.still ⟨3⟩)
        ((leading { batchSize := 2 } valid n).flatten.map Prod.snd) settledStore = (.ok r, t, clock'') ∧
      t.violations.map (·.map fun r => (r.line, r.status, r.firstSeen)) =
        some [(1, .active, ⟨1⟩), (2, .active, ⟨3⟩)] := by
  obtain ⟨⟨valid, errors⟩, screened⟩ : ∃ out, screen 0 crowded = .ok out :=
    exists_eq_ok.mpr (by decide +kernel)
  obtain ⟨untroubled, failing, -⟩ :=
    upserts_atomic (k := { batchSize := 2 }) (by decide) screened (.still ⟨3⟩) settledStore
  have fails : (storeViolations { batchSize := 2 } (.still ⟨3⟩) crowded settledStore).1.isOk = false := by
    decide +kernel
  have shown : (storeViolations { batchSize := 2 } (.still ⟨3⟩) crowded settledStore).2.1.violations.map
      (·.map fun r => (r.line, r.status, r.firstSeen)) = some [(1, .active, ⟨1⟩), (2, .active, ⟨3⟩)] := by
    decide +kernel
  cases ran : storeViolations { batchSize := 2 } (.still ⟨3⟩) crowded settledStore with
  | mk outcome left =>
    obtain ⟨t, clock'⟩ := left
    rw [ran] at fails shown
    cases outcome with
    | ok r => cases fails
    | error f =>
      obtain ⟨n, -, -, -, ⟨r, clock'', before⟩, -⟩ :=
        (failing _ f t).mp ⟨clock', untroubled.trans ran⟩
      exact ⟨f, t, clock', valid, n, r, clock'', rfl, before, shown⟩

end Store

end LintLedger
