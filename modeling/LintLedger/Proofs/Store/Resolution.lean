import LintLedger.Proofs.Store.Screening
import Mathlib

/-!
# Resolving, and coming back

Violations are resolved in parts, and the numbers of rows that each part changes are added up.  Since no two
rows have one fingerprint, and a part leaves nothing active that the next could find again, the sum is the
number of fingerprints that are listed and active (`countP_listed`), and the rows are changed as if there
were no parts at all (`resolve_listed`).  So resolving is a homomorphism from lists under concatenation
(`resolution_exact`): what is resolved twice is resolved once.  A violation that is stored afterwards takes
its row back, with the moment at which it was first seen (`Upserted.exists_reactivated`).
-/

namespace LintLedger

namespace Store

variable {s : Store} {rows rows' : List ViolationRow} {now : Instant} {prints xs ys : List String}
  {order : Moments}

/-! ### Rows that are listed and active -/

theorem isActive_iff {r : ViolationRow} : r.isActive = true ↔ r.status = .active := decide_eq_true_iff

/-- what resolving does to a row -/
theorem resolve_listed (r : ViolationRow) : r.resolve now xs =
    if r.status = .active ∧ r.fingerprint ∈ xs then { r with status := .resolved, resolvedAt := some now }
    else r := by
  unfold ViolationRow.resolve
  simp only [Bool.and_eq_true, isActive_iff, List.contains_iff_mem]

/-- of rows that no two share a fingerprint, as many are active and listed as fingerprints are -/
theorem countP_listed (apart : (printsOf rows).Nodup) :
    (rows.countP fun r => r.isActive && xs.contains r.fingerprint) =
      (xs.toFinset ∩ (printsOf (rows.filter (·.isActive))).toFinset).card := by
  have listed : xs.toFinset ∩ (printsOf (rows.filter (·.isActive))).toFinset =
      (printsOf (rows.filter fun r => r.isActive && xs.contains r.fingerprint)).toFinset := by
    ext f
    simp only [Finset.mem_inter, List.mem_toFinset, mem_printsOf, List.mem_filter, Bool.and_eq_true,
      List.contains_iff_mem]
    constructor
    · rintro ⟨given, r, ⟨hr, active⟩, rfl⟩
      exact ⟨r, ⟨hr, active, given⟩, rfl⟩
    · rintro ⟨r, ⟨hr, active, given⟩, rfl⟩
      exact ⟨given, r, ⟨hr, active⟩, rfl⟩
  rw [listed, List.toFinset_card_of_nodup (nodup_printsOf_filter _ apart), printsOf, List.length_map,
    List.countP_eq_length_filter]

/-- what was listed is not active any more -/
theorem countP_resolved (rows : List ViolationRow) (now later : Instant) (xs : List String) :
    (rows.map (ViolationRow.resolve now xs)).countP (fun r => r.isActive && xs.contains r.fingerprint) = 0 ∧
      (rows.map (ViolationRow.resolve now xs)).map (ViolationRow.resolve later xs) =
        rows.map (ViolationRow.resolve now xs) := by
  have settled : ∀ r ∈ rows.map (ViolationRow.resolve now xs),
      ¬ (r.isActive && xs.contains r.fingerprint) = true := by
    intro t ht
    obtain ⟨r, -, rfl⟩ := List.mem_map.mp ht
    rw [isActive_resolve, fingerprint_resolve]
    cases xs.contains r.fingerprint <;> simp
  refine ⟨List.countP_eq_zero.mpr settled, ?_⟩
  exact (List.map_congr_left fun r hr => if_neg (settled r hr)).trans (List.map_id _)

/-! ### What is answered -/

/-- as many rows are resolved as there are listed fingerprints that are active -/
theorem resolveViolations_listed (known : s.violations = some rows) (apart : (printsOf rows).Nodup) :
    resolveViolations now xs s =
      .ok ((xs.toFinset ∩ (printsOf (rows.filter (·.isActive))).toFinset).card,
        { s with violations := some (rows.map (ViolationRow.resolve now xs)) }) := by
  rw [resolveViolations_eq known, resolvePart]
  dsimp only
  rw [countP_listed apart, Nat.zero_add]

/-- some fingerprints and then others are resolved as they are together -/
theorem resolveViolations_append (known : s.violations = some rows) {t : Store} {m : ℕ}
    (h : resolveViolations now xs s = .ok (m, t)) :
    ∃ n u, resolveViolations now ys t = .ok (n, u) ∧ resolveViolations now (xs ++ ys) s = .ok (m + n, u) := by
  rw [resolveViolations_eq known] at h
  cases h
  refine ⟨_, _, resolveViolations_eq rfl, ?_⟩
  rw [resolveViolations_eq known, ← resolvePart_append]
  simp only [resolvePart, Nat.zero_add]

/-- nothing is resolved twice -/
theorem resolveViolations_again (known : s.violations = some rows) {t : Store} {m : ℕ}
    (h : resolveViolations now xs s = .ok (m, t)) (later : Instant) :
    resolveViolations later xs t = .ok (0, t) := by
  rw [resolveViolations_eq known] at h
  cases h
  obtain ⟨none, same⟩ := countP_resolved rows now later xs
  rw [resolveViolations_eq rfl]
  simp only [resolvePart, none, same]

/-! ### Rows that come back -/

/-- a row whose fingerprint is written is active, and was first seen when it was -/
theorem Upserted.exists_reactivated (h : Upserted order prints rows rows') {r : ViolationRow} (hr : r ∈ rows)
    (written : r.fingerprint ∈ prints) :
    ∃ t ∈ rows', t.fingerprint = r.fingerprint ∧ t.status = .active ∧ t.resolvedAt = none ∧
      t.firstSeen = r.firstSeen := by
  obtain ⟨t, ht, ⟨-, later, -, rfl⟩ | ⟨unwritten, -⟩⟩ := h.stays r hr
  · exact ⟨_, ht, rfl, rfl, rfl, rfl⟩
  · exact absurd written unwritten

section Storing

variable {k : StoreSettings} {vs : List Violation}

/-- violations that the store takes are stored to their end -/
theorem exists_storeViolations_of_isStorable (sized : 0 < k.batchSize) (known : s.violations = some rows)
    (clock : Clock) (storable : ∀ v ∈ vs, v.IsStorable) :
    ∃ r, (storeViolations k clock vs s).1 = .ok r := by
  refine (exists_storeViolations_eq_ok_iff sized known clock).mpr
    ⟨(exists_screen_eq_ok 0).mp (exists_screen_of_isStorable storable), fun v hv => ?_⟩
  exact (storable v (mem_of_mem_newcomers hv)).isEnterable

/-- whenever violations are stored, the row of each without problems is active again -/
theorem exists_reactivated_of_stored (sized : 0 < k.batchSize) (known : s.violations = some rows)
    (apart : (printsOf rows).Nodup) {clock : Clock} {r : StoreResult}
    (stored : (storeViolations k clock vs s).1 = .ok r) :
    ∃ rows', (storeViolations k clock vs s).2.1 = { s with violations := some rows' } ∧
      (printsOf rows').Nodup ∧
      ∀ v ∈ vs, v.problems = .ok [] → ∀ row ∈ rows, v.fingerprint = .ok row.fingerprint →
        ∃ row' ∈ rows', row'.fingerprint = row.fingerprint ∧ row'.status = .active ∧
          row'.resolvedAt = none ∧ row'.firstSeen = row.firstSeen := by
  obtain ⟨rows', left, upserted, -⟩ := storeViolations_eq_ok sized known (Prod.ext stored (Prod.ext rfl rfl))
  refine ⟨rows', left, upserted.distinct apart, fun v hv clean row hrow print => ?_⟩
  refine upserted.exists_reactivated hrow (List.mem_filterMap.mpr ⟨v, hv, ?_⟩)
  rw [acceptedPrint?_of_told clean, if_pos rfl, print]
  rfl

end Storing

/-- **Resolving is exact, additive and reversible.** Whatever rows are in the store and however many
fingerprints are listed, resolving them answers how many of them are active and turns just their rows to
resolved at that moment, and nothing else is changed.  Others are resolved after them at that moment as all
are together, and the counts add up; the same once more, at any moment, changes nothing and counts nothing.
Violations that the store takes can be stored afterwards; and whenever violations are stored, each one
without problems makes the row of its fingerprint active again, unresolved, and first seen when it was. -/
theorem resolution_exact (known : s.violations = some rows) (apart : (printsOf rows).Nodup) (now : Instant)
    (xs ys : List String) :
    ∃ m t, resolveViolations now xs s = .ok (m, t) ∧
      m = (xs.toFinset ∩ (printsOf (rows.filter (·.isActive))).toFinset).card ∧
      t = { s with violations := some (rows.map fun r =>
        if r.status = .active ∧ r.fingerprint ∈ xs then
          { r with status := .resolved, resolvedAt := some now }
        else r) } ∧
      (∃ n u, resolveViolations now ys t = .ok (n, u) ∧
        resolveViolations now (xs ++ ys) s = .ok (m + n, u)) ∧
      (∀ later, resolveViolations later xs t = .ok (0, t)) ∧
      ∀ (k : StoreSettings) (clock : Clock) (vs : List Violation), 0 < k.batchSize →
        ((∀ v ∈ vs, v.IsStorable) → ∃ r, (storeViolations k clock vs t).1 = .ok r) ∧
        ∀ r, (storeViolations k clock vs t).1 = .ok r →
          ∃ rows', (storeViolations k clock vs t).2.1 = { t with violations := some rows' } ∧
            (printsOf rows').Nodup ∧
            ∀ v ∈ vs, v.problems = .ok [] → ∀ row ∈ rows, v.fingerprint = .ok row.fingerprint →
              ∃ row' ∈ rows', row'.fingerprint = row.fingerprint ∧ row'.status = .active ∧
                row'.resolvedAt = none ∧ row'.firstSeen = row.firstSeen := by
  have done : resolveViolations now xs s = _ := resolveViolations_listed known apart
  have kept : (printsOf (rows.map (ViolationRow.resolve now xs))).Nodup := by
    rw [printsOf_resolve]
    exact apart
  refine ⟨_, _, done, rfl, ?_, resolveViolations_append known done, resolveViolations_again known done,
    fun k clock vs sized => ⟨exists_storeViolations_of_isStorable sized rfl clock, fun r stored => ?_⟩⟩
  · exact congrArg (fun rows => { s with violations := some rows })
      (List.map_congr_left fun r _ => resolve_listed r)
  · obtain ⟨rows', left, once, back⟩ := exists_reactivated_of_stored sized rfl kept stored
    refine ⟨rows', left, once, fun v hv clean row hrow print => ?_⟩
    obtain ⟨row', hrow', same, active, unresolved, first⟩ := back v hv clean (row.resolve now xs)
      (List.mem_map_of_mem hrow) (print.trans (congrArg _ (fingerprint_resolve row).symm))
    exact ⟨row', hrow', same.trans (fingerprint_resolve row), active, unresolved,
      first.trans ViolationRow.resolve_survives.firstSeen⟩

theorem resolution_exact_found : ∃ rows t, found.violations = some rows ∧
    resolveViolations ⟨2⟩ ("x" :: printsOf rows) found = .ok (1, t) ∧
    resolveViolations ⟨3⟩ ("x" :: printsOf rows) t = .ok (0, t) ∧
    ∃ r rows', (storeViolations { batchSize := 2 } (.still ⟨4⟩) jumbled t).1 = .ok r ∧
      (storeViolations { batchSize := 2 } (.still ⟨4⟩) jumbled t).2.1 =
        { t with violations := some rows' } ∧
      ∀ row ∈ rows, ∃ row' ∈ rows', row'.fingerprint = row.fingerprint ∧ row'.status = .active ∧
        row'.firstSeen = row.firstSeen := by
  have reached : Reached found ⟨1⟩ := .step (.empty ⟨1⟩) (.still ⟨1⟩) (.answered _)
  obtain ⟨rows, known, sound⟩ := reached.isSound
  obtain ⟨m, t, done, -, -, -, again, back⟩ :=
    resolution_exact known sound.distinct ⟨2⟩ ("x" :: printsOf rows) []
  obtain ⟨r, stored⟩ := (back { batchSize := 2 } (.still ⟨4⟩) jumbled (by decide)).1 jumbled_isStorable
  obtain ⟨rows', left, -, active⟩ := (back _ _ _ (by decide)).2 r stored
  have counted : (resolveViolations ⟨2⟩ ("x" :: (found.violations.map printsOf).getD []) found).toOption.map
      Prod.fst = some 1 := by decide +kernel
  have prints : found.violations.map printsOf = sample.fingerprint.toOption.map ([·]) := by decide +kernel
  rw [known] at counted prints
  obtain rfl : m = 1 := by
    rw [Option.map_some, Option.getD_some, done] at counted
    exact Option.some.inj counted
  refine ⟨rows, t, known, done, again ⟨3⟩, r, rows', stored, left, fun row hrow => ?_⟩
  have own : sample.fingerprint = .ok row.fingerprint := by
    have mem : row.fingerprint ∈ printsOf rows := mem_printsOf.mpr ⟨row, hrow, rfl⟩
    cases print : sample.fingerprint with
    | error fault =>
      rw [print] at prints
      cases prints
    | ok f =>
      rw [print] at prints
      rw [Option.some.inj prints] at mem
      rw [List.mem_singleton.mp mem]
  obtain ⟨row', hrow', same, status, -, first⟩ := active sample List.mem_cons_self rfl row hrow own
  exact ⟨row', hrow', same, status, first⟩

end Store

end LintLedger
