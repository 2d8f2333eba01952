import LintLedger.Proofs.Batches
import LintLedger.Proofs.Distinct
import LintLedger.Proofs.Outcome
import LintLedger.Store.Request
import Mathlib

/-!
# What changes to the store come down to

One lemma for each change that a store can be asked for: which tables it needed, what it answered and
which tables it left as they were.  Everything that is proved of the store goes through these.  Violations
are resolved part by part; that comes to resolving them at once, since a part leaves nothing active for the
next to find again (`resolvePart_append`).
-/

namespace LintLedger.Store

open Outcome

variable {k : StoreSettings} {now : Instant} {s t : Store}

theorem need_eq_ok {α : Type} {action : StoreAction} {table : Table α} {rows : List α} :
    need action table = .ok rows ↔ table = some rows := by
  cases table <;> simp [need]

/-! ### Violations and history -/

theorem fingerprint_resolve {xs : List String} (r : ViolationRow) :
    (r.resolve now xs).fingerprint = r.fingerprint := by
  unfold ViolationRow.resolve
  split <;> rfl

/-- what is active once some rows are resolved was so before and is none of these -/
theorem isActive_resolve {xs : List String} (r : ViolationRow) :
    (r.resolve now xs).isActive = (r.isActive && !xs.contains r.fingerprint) := by
  unfold ViolationRow.resolve
  split
  · rename_i found
    rw [Bool.and_eq_true] at found
    rw [found.2, Bool.not_true, Bool.and_false]
    rfl
  · rename_i other
    by_cases active : r.isActive = true
    · simp_all
    · simp [active]

theorem map_resolve_nil (rows : List ViolationRow) : rows.map (ViolationRow.resolve now []) = rows :=
  (List.map_congr_left fun r _ => by simp [ViolationRow.resolve]).trans (List.map_id rows)

/-- a row that is resolved with some fingerprints and then with others is resolved with both -/
theorem resolve_resolve {xs ys : List String} (r : ViolationRow) :
    (r.resolve now xs).resolve now ys = r.resolve now (xs ++ ys) := by
  by_cases first : (r.isActive && xs.contains r.fingerprint) = true
  · rw [Bool.and_eq_true] at first
    simp_all [ViolationRow.resolve, ViolationRow.isActive]
  · have kept : r.resolve now xs = r := if_neg first
    rw [kept]
    by_cases active : r.isActive = true <;> simp_all [ViolationRow.resolve]

/-- what is active of some fingerprints and of others is counted first with the one and then with the rest -/
theorem countP_resolve {rows : List ViolationRow} {xs ys : List String} :
    (rows.countP fun r => r.isActive && xs.contains r.fingerprint) +
        ((rows.map (ViolationRow.resolve now xs)).countP fun r => r.isActive && ys.contains r.fingerprint) =
      rows.countP fun r => r.isActive && (xs ++ ys).contains r.fingerprint := by
  rw [List.countP_map, List.countP_eq_countP_filter_add rows
    (fun r => r.isActive && (xs ++ ys).contains r.fingerprint) fun r => xs.contains r.fingerprint,
    List.countP_filter, List.countP_filter]
  simp only [Function.comp_def, isActive_resolve, fingerprint_resolve, List.contains_append]
  refine congrArg₂ _ (List.countP_congr fun r _ => ?_) (List.countP_congr fun r _ => ?_)
  · cases r.isActive <;> cases xs.contains r.fingerprint <;> simp
  · cases r.isActive <;> cases xs.contains r.fingerprint <;> simp

/-- two parts are resolved one after the other as they are at once -/
theorem resolvePart_append (done : Nat × List ViolationRow) (xs ys : List String) :
    resolvePart now (resolvePart now done xs) ys = resolvePart now done (xs ++ ys) := by
  unfold resolvePart
  dsimp only
  rw [List.map_map, Nat.add_assoc, countP_resolve]
  exact congrArg _ (List.map_congr_left fun r _ => resolve_resolve r)

theorem foldl_resolvePart (done : Nat × List ViolationRow) (parts : List (List String)) :
    parts.foldl (resolvePart now) done = resolvePart now done parts.flatten := by
  induction parts generalizing done with
  | nil => simp [resolvePart, map_resolve_nil]
  | cons part rest ih => rw [List.foldl_cons, ih, resolvePart_append, List.flatten_cons]

/-- it does not matter in which order fingerprints are named, nor how often -/
theorem resolvePart_congr {xs ys : List String} (same : ∀ f, f ∈ xs ↔ f ∈ ys)
    (done : Nat × List ViolationRow) : resolvePart now done xs = resolvePart now done ys := by
  have agree : ∀ f, xs.contains f = ys.contains f := fun f => by
    rw [Bool.eq_iff_iff, List.contains_iff_mem, List.contains_iff_mem, same]
  unfold resolvePart ViolationRow.resolve
  simp only [agree]

/-- violations are resolved part by part as they are at once -/
theorem resolveViolations_eq {prints : List String} {rows : List ViolationRow}
    (known : s.violations = some rows) : resolveViolations now prints s =
      .ok ((resolvePart now (0, rows) prints).1,
        { s with violations := some (resolvePart now (0, rows) prints).2 }) := by
  unfold resolveViolations
  split
  · rename_i none
    rw [List.isEmpty_iff.mp none]
    simp [resolvePart, map_resolve_nil, ← known]
  · rw [need_eq_ok.mpr known]
    dsimp only [bind, Except.bind]
    rw [foldl_resolvePart, flatten_batches (by decide), resolvePart_congr fun f => mem_distinct]
    rfl

theorem resolveViolations_eq_ok {prints : List String} {n : Nat}
    (h : resolveViolations now prints s = .ok (n, t)) :
    t = s ∨ ∃ rows, s.violations = some rows ∧
      t = { s with violations := some (rows.map (ViolationRow.resolve now prints)) } := by
  cases known : s.violations with
  | none =>
    unfold resolveViolations at h
    split at h
    · cases h
      exact .inl rfl
    · rw [known] at h
      cases h
  | some rows =>
    rw [resolveViolations_eq known] at h
    cases h
    exact .inr ⟨rows, rfl, rfl⟩

theorem cleanup_eq_ok {days : Option Value} {result : CleanupResult}
    (h : cleanup k now days s = .ok (result, t)) :
    ∃ limit history rows metrics, s.violations = some rows ∧ s.history = some history ∧
      t = { s with
        history := some (history.filter fun r => !r.recordedAt.isBefore limit)
        violations := some (rows.filter fun r => !r.isStale limit)
        metrics := some metrics } := by
  obtain ⟨limit, -, h⟩ := bind_eq_ok.mp h
  obtain ⟨history, hhistory, h⟩ := bind_eq_ok.mp h
  obtain ⟨rows, hrows, h⟩ := bind_eq_ok.mp h
  obtain ⟨metrics, -, h⟩ := bind_eq_ok.mp h
  cases h
  exact ⟨limit, history, rows, _, need_eq_ok.mp hrows, need_eq_ok.mp hhistory, rfl⟩

/-- the rows of history that a check leaves behind -/
def historyOf (now : Instant) (check : Int) (history : List HistoryRow) (d : Delta) : List HistoryRow :=
  numbered HistoryRow.id history
    (fun id (e : DeltaAction × String) => ⟨id, check, e.2, e.1, now⟩) d.entries

theorem recordDeltas_eq_ok {check : Value} {prints : List String} {d : Delta}
    (h : recordDeltas now check prints s = .ok (d, t)) :
    ∃ rows, s.violations = some rows ∧
      d = Delta.between (activeFingerprints rows) (distinct prints) ∧
      (d.entries = [] ∧ t = s ∨ ∃ history number, s.history = some history ∧
        countColumn .recordDeltas check = .ok number ∧
        t = { s with history := some (history ++ historyOf now number history d) }) := by
  unfold recordDeltas at h
  obtain ⟨rows, needed, h⟩ := bind_eq_ok.mp h
  dsimp only at h
  split at h
  · rename_i nothing
    cases h
    exact ⟨rows, need_eq_ok.mp needed, rfl, .inl ⟨List.isEmpty_iff.mp nothing, rfl⟩⟩
  · obtain ⟨history, hhistory, h⟩ := bind_eq_ok.mp h
    obtain ⟨number, hnumber, h⟩ := bind_eq_ok.mp h
    cases h
    exact ⟨rows, need_eq_ok.mp needed, rfl,
      .inr ⟨history, number, need_eq_ok.mp hhistory, hnumber, rfl⟩⟩

/-! ### Checks -/

theorem startCheck_eq_ok {rule engine : Value} {id : Int}
    (h : startCheck now rule engine s = .ok (id, t)) :
    ∃ rows row, s.checks = some rows ∧ id = nextId CheckRow.id rows ∧ row.id = id ∧
      t = { s with checks := some (rows ++ [row]) } := by
  obtain ⟨rows, needed, h⟩ := bind_eq_ok.mp h
  obtain ⟨rule, -, h⟩ := bind_eq_ok.mp h
  obtain ⟨engine, -, h⟩ := bind_eq_ok.mp h
  cases h
  exact ⟨rows, _, need_eq_ok.mp needed, rfl, rfl, rfl⟩

theorem changeCheck_eq_ok {action : StoreAction} {check : Int}
    {change : CheckRow → Except Failure CheckRow}
    (same : ∀ r r', change r = .ok r' → r'.id = r.id) (h : changeCheck action check change s = .ok t) :
    ∃ rows rows', s.checks = some rows ∧ rows'.map CheckRow.id = rows.map CheckRow.id ∧
      t = { s with checks := some rows' } := by
  obtain ⟨rows, needed, h⟩ := bind_eq_ok.mp h
  obtain ⟨number, -, h⟩ := bind_eq_ok.mp h
  obtain ⟨rows', changed, h⟩ := bind_eq_ok.mp h
  cases h
  refine ⟨rows, rows', need_eq_ok.mp needed, ?_, rfl⟩
  refine map_of_mapM (fun r r' one => ?_) changed
  split at one
  · exact same r r' one
  · cases one
    rfl

theorem completeCheck_eq_ok {check : Int} {found milliseconds : Value}
    (h : completeCheck now check found milliseconds s = .ok t) :
    ∃ rows rows', s.checks = some rows ∧ rows'.map CheckRow.id = rows.map CheckRow.id ∧
      t = { s with checks := some rows' } := by
  refine changeCheck_eq_ok (fun r r' changed => ?_) h
  obtain ⟨found, -, changed⟩ := bind_eq_ok.mp changed
  obtain ⟨milliseconds, -, changed⟩ := bind_eq_ok.mp changed
  cases changed
  rfl

theorem failCheck_eq_ok {check : Int} {error milliseconds : Value}
    (h : failCheck now check error milliseconds s = .ok t) :
    ∃ rows rows', s.checks = some rows ∧ rows'.map CheckRow.id = rows.map CheckRow.id ∧
      t = { s with checks := some rows' } := by
  refine changeCheck_eq_ok (fun r r' changed => ?_) h
  obtain ⟨milliseconds, -, changed⟩ := bind_eq_ok.mp changed
  obtain ⟨error, -, changed⟩ := bind_eq_ok.mp changed
  cases changed
  rfl

/-! ### Schedules and measurements -/

theorem saveSchedules_eq_ok {priority : Value} {entries : List ScheduleEntry}
    (h : saveSchedules priority entries s = .ok t) :
    ∃ rows, (s.schedules.isSome → rows.isSome) ∧ t = { s with schedules := rows } := by
  unfold saveSchedules at h
  split at h
  · cases h
    exact ⟨s.schedules, id, rfl⟩
  · obtain ⟨rows, -, h⟩ := bind_eq_ok.mp h
    obtain ⟨keyed, -, h⟩ := bind_eq_ok.mp h
    obtain ⟨known, -, h⟩ := bind_eq_ok.mp h
    obtain ⟨all, -, h⟩ := bind_eq_ok.mp h
    cases h
    exact ⟨_, fun _ => rfl, rfl⟩

theorem recordMetric_eq_ok {kind value unit context : Value}
    (h : recordMetric k now kind value unit context s = .ok t) :
    ∃ rows, (s.metrics.isSome → rows.isSome) ∧ t = { s with metrics := rows } := by
  unfold recordMetric at h
  split at h
  · cases h
    exact ⟨s.metrics, id, rfl⟩
  · obtain ⟨number, -, h⟩ := bind_eq_ok.mp h
    obtain ⟨rows, -, h⟩ := bind_eq_ok.mp h
    obtain ⟨kind, -, h⟩ := bind_eq_ok.mp h
    dsimp only at h
    split at h
    · cases h
    · obtain ⟨unit, -, h⟩ := bind_eq_ok.mp h
      cases h
      exact ⟨_, fun _ => rfl, rfl⟩

end LintLedger.Store
