import LintLedger.Proofs.Store.Accepted
import LintLedger.Proofs.Store.Changes
import LintLedger.Store.Request
import Mathlib

/-!
# The life of a violation

A store is asked one thing after another, by a clock that never goes back.  A request may be answered;
it may be undone, because something failed on the way; and of violations that are stored, some batches
may have been written before the rest is undone (`Step`).  Of the three requests that touch violations,
storing is an upsert, resolving marks active rows, and cleaning up removes resolved ones
(`Step.exists_effect`).  From that follows what every reachable store is like and what any further
request does to its rows (`lifecycle`).
-/

namespace LintLedger

open Outcome

namespace Store

/-! ### Requests that are answered, undone or cut short -/

/-- the store once some batches of violations have been written, and no more -/
def interrupted (k : StoreSettings) (clock : Clock) (n : Nat) (vs : List Violation) (s : Store) : Store :=
  match screen 0 vs, s.violations with
  | .ok (valid, errors), some rows =>
    let done := (batches k.batchSize valid).take n
    { s with violations := some (storeBatches clock ⟨0, 0, errors⟩ done rows).2.1 }
  | _, _ => s

/-- what a request may leave behind -/
inductive Step (k : StoreSettings) (clock : Clock) (s : Store) : Request → Store → Prop
  | answered (request : Request) : Step k clock s request (respond k clock s request).2
  | undone (request : Request) : Step k clock s request s
  | cutShort (n : Nat) (vs : List Violation) :
      Step k clock s (.store vs) (interrupted k clock n vs s)

/-- the stores that come about from an empty one, with a moment that no reading of the clock so far
lies behind -/
inductive Reached : Store → Instant → Prop
  | empty (now : Instant) : Reached .empty now
  | step {s t : Store} {now later : Instant} {k : StoreSettings} {clock : Clock} {request : Request}
      (before : Reached s now) (within : clock.Within now later) (step : Step k clock s request t) :
      Reached t later

/-! ### What requests do to violations -/

variable {k : StoreSettings} {clock : Clock} {first last : Instant} {s t : Store} {request : Request}
  {rows rows' : List ViolationRow}

/-- what a request may do to the rows of violations between two moments -/
def Effect (first last : Instant) (rows rows' : List ViolationRow) : Request → Prop
  | .store _ => ∃ prints, Upserted (.between first last) prints rows rows'
  | .resolve prints => rows' = rows ∨ ∃ now, first ≤ now ∧ now ≤ last ∧
      rows' = rows.map (ViolationRow.resolve now prints)
  | .cleanup _ => rows' = rows ∨ ∃ limit, rows' = rows.filter fun r => !r.isStale limit
  | _ => rows' = rows

theorem Effect.refl (rows : List ViolationRow) (request : Request) :
    Effect first last rows rows request := by
  cases request with
  | store vs => exact ⟨[], .refl _ rows⟩
  | resolve prints => exact .inl rfl
  | cleanup days => exact .inl rfl
  | _ => exact rfl

/-- a change that is done whole or not at all -/
theorem whole_snd {α : Type} {answer : α → Answer} {change : Except Failure (α × Store)} :
    (whole s answer change).2 = s ∨ ∃ a t, change = .ok (a, t) ∧ (whole s answer change).2 = t := by
  cases change with
  | error f => exact .inl rfl
  | ok done => exact .inr ⟨done.1, done.2, rfl, rfl⟩

theorem whole_violations {α : Type} {answer : α → Answer} {change : Except Failure (α × Store)}
    (frame : ∀ a t, change = .ok (a, t) → t.violations = s.violations) :
    (whole s answer change).2.violations = s.violations := by
  rcases whole_snd with same | ⟨a, t, done, same⟩
  · rw [same]
  · rw [same, frame a t done]

theorem silent_violations {change : Except Failure Store}
    (frame : ∀ t, change = .ok t → t.violations = s.violations) :
    (silent s change).2.violations = s.violations := by
  refine whole_violations fun a t done => ?_
  obtain ⟨u, changed, same⟩ := map_eq_ok.mp done
  cases same
  exact frame _ changed

theorem interrupted_upserted (k : StoreSettings) (clock : Clock) (n : Nat) (vs : List Violation)
    (h : s.violations = some rows) :
    ∃ rows' prints, (interrupted k clock n vs s).violations = some rows' ∧
      Upserted clock.Shows prints rows rows' := by
  unfold interrupted
  rw [h]
  split
  · rename_i valid errors _ _ known
    cases known
    obtain ⟨m, -, upserted, -⟩ := storeBatches_upserted clock ⟨0, 0, errors⟩
      ((batches k.batchSize valid).take n) rows
    exact ⟨_, _, rfl, upserted⟩
  · exact ⟨rows, [], h, .refl clock.Shows rows⟩

/-- whatever becomes of a request, the table of violations is still there, and only three requests
change it -/
theorem Step.exists_effect (step : Step k clock s request t) (within : clock.Within first last)
    (h : s.violations = some rows) :
    ∃ rows', t.violations = some rows' ∧ Effect first last rows rows' request := by
  cases step with
  | undone => exact ⟨rows, h, .refl rows request⟩
  | cutShort n vs =>
    obtain ⟨rows', prints, left, upserted⟩ := interrupted_upserted k clock n vs h
    exact ⟨rows', left, prints, upserted.mono fun _ _ => within.between⟩
  | answered =>
    cases request with
    | store vs =>
      obtain ⟨rows', prints, left, -, upserted⟩ := storeViolations_upserted k clock vs h
      unfold respond
      dsimp only
      rw [left]
      exact ⟨rows', rfl, prints, upserted.mono fun _ _ => within.between⟩
    | resolve prints =>
      rcases whole_snd with same | ⟨n, t, done, same⟩
      · exact ⟨rows, same ▸ h, .inl rfl⟩
      · unfold respond
        rw [same]
        rcases resolveViolations_eq_ok done with rfl | ⟨rows', known, rfl⟩
        · exact ⟨rows, h, .inl rfl⟩
        · obtain rfl : rows = rows' := Option.some.inj (h.symm.trans known)
          exact ⟨_, rfl, .inr ⟨clock 0, within.begins 0, within.ends 0, rfl⟩⟩
    | cleanup days =>
      rcases whole_snd with same | ⟨result, t, done, same⟩
      · exact ⟨rows, same ▸ h, .inl rfl⟩
      · unfold respond
        rw [same]
        obtain ⟨limit, history, rows', metrics, known, -, rfl⟩ := cleanup_eq_ok done
        obtain rfl : rows = rows' := Option.some.inj (h.symm.trans known)
        exact ⟨_, rfl, .inr ⟨limit, rfl⟩⟩
    | recordDeltas check prints =>
      refine ⟨rows, (whole_violations fun d t done => ?_).trans h, rfl⟩
      obtain ⟨rows', -, -, ⟨-, rfl⟩ | ⟨history, number, -, -, rfl⟩⟩ := recordDeltas_eq_ok done <;> rfl
    | startCheck rule engine =>
      refine ⟨rows, (whole_violations fun id t done => ?_).trans h, rfl⟩
      obtain ⟨checks, row, -, -, -, rfl⟩ := startCheck_eq_ok done
      rfl
    | completeCheck check found ms =>
      refine ⟨rows, (silent_violations fun t done => ?_).trans h, rfl⟩
      obtain ⟨checks, checks', -, -, rfl⟩ := completeCheck_eq_ok done
      rfl
    | failCheck check error ms =>
      refine ⟨rows, (silent_violations fun t done => ?_).trans h, rfl⟩
      obtain ⟨checks, checks', -, -, rfl⟩ := failCheck_eq_ok done
      rfl
    | saveSchedules priority entries =>
      refine ⟨rows, (silent_violations fun t done => ?_).trans h, rfl⟩
      obtain ⟨schedules, -, rfl⟩ := saveSchedules_eq_ok done
      rfl
    | recordMetric kind value unit context =>
      refine ⟨rows, (silent_violations fun t done => ?_).trans h, rfl⟩
      obtain ⟨metrics, -, rfl⟩ := recordMetric_eq_ok done
      rfl
    | _ => exact ⟨rows, h, rfl⟩

end Store

/-! ### What every row is like -/

namespace ViolationRow

/-- what holds of a row at a moment: it was not seen before it was first seen, and it has been resolved,
not before it was last seen, just if its status says so -/
structure IsSound (now : Instant) (r : ViolationRow) : Prop where
  seen : r.firstSeen ≤ r.lastSeen
  past : r.lastSeen ≤ now
  status : r.status = .resolved ↔ ∃ t, r.resolvedAt = some t
  resolved : ∀ t, r.resolvedAt = some t → r.lastSeen ≤ t

variable {prints : List String} {first now last : Instant} {r t : ViolationRow}

theorem IsSound.mono (h : r.IsSound first) (le : first ≤ last) : r.IsSound last :=
  ⟨h.seen, h.past.trans le, h.status, h.resolved⟩

theorem IsFresh.isSound (h : r.IsFresh (.between first last)) : r.IsSound last := by
  obtain ⟨-, order, upTo⟩ := h.times
  exact ⟨order, upTo, by simp [h.active, h.unresolved], by simp [h.unresolved]⟩

theorem IsSound.refreshed (h : r.IsSound first) (g : r.Refreshed (.between first last) prints t)
    (le : first ≤ last) : t.IsSound last := by
  rcases g with ⟨-, now, ⟨since, -, upTo⟩, rfl⟩ | ⟨-, rfl⟩
  · exact ⟨(h.seen.trans h.past).trans since, upTo, by simp [ViolationRow.seen],
      by simp [ViolationRow.seen]⟩
  · exact h.mono le

theorem IsSound.resolve (h : r.IsSound first) (since : first ≤ now) (upTo : now ≤ last) :
    (r.resolve now prints).IsSound last := by
  unfold ViolationRow.resolve
  split
  · refine ⟨h.seen, (h.past.trans since).trans upTo, by simp, ?_⟩
    rintro t ⟨⟩
    exact h.past.trans since
  · exact h.mono (since.trans upTo)

/-- what may become of a row that is still there after a request -/
structure Survives (request : Store.Request) (r t : ViolationRow) : Prop where
  print : t.fingerprint = r.fingerprint
  firstSeen : t.firstSeen = r.firstSeen
  resolved : r.status = .active → t.status = .resolved → ∃ prints, request = .resolve prints
  reopened : r.status = .resolved → t.status = .active → ∃ vs, request = .store vs

theorem Survives.refl (request : Store.Request) (r : ViolationRow) : r.Survives request r where
  print := rfl
  firstSeen := rfl
  resolved active resolved := by simp [active] at resolved
  reopened resolved active := by simp [active] at resolved

theorem Refreshed.survives {order : Moments} {vs : List Violation} (h : r.Refreshed order prints t) :
    r.Survives (.store vs) t where
  print := h.fingerprint
  firstSeen := h.firstSeen
  resolved active resolved := by
    rcases h with ⟨-, now, -, rfl⟩ | ⟨-, rfl⟩
    · simp [ViolationRow.seen] at resolved
    · simp [active] at resolved
  reopened _ _ := ⟨vs, rfl⟩

theorem resolve_survives : r.Survives (.resolve prints) (r.resolve now prints) := by
  unfold ViolationRow.resolve
  split
  · rename_i found
    have active : r.status = .active := by simp_all [isActive]
    exact ⟨rfl, rfl, fun _ _ => ⟨prints, rfl⟩, fun resolved => by simp [active] at resolved⟩
  · exact .refl _ r

end ViolationRow

namespace Store

variable {k : StoreSettings} {clock : Clock} {first last now : Instant} {s t : Store}
  {request : Request} {rows rows' : List ViolationRow}

theorem printsOf_resolve {prints : List String} :
    printsOf (rows.map (ViolationRow.resolve now prints)) = printsOf rows := by
  unfold printsOf
  rw [List.map_map]
  exact List.map_congr_left fun r _ => fingerprint_resolve r

/-- rows of which no two have one fingerprint, each of them sound -/
structure IsSound (now : Instant) (rows : List ViolationRow) : Prop where
  distinct : (printsOf rows).Nodup
  each : ∀ r ∈ rows, r.IsSound now

/-- what one request does keeps rows sound -/
theorem IsSound.effect (h : IsSound first rows) (effect : Effect first last rows rows' request)
    (le : first ≤ last) : IsSound last rows' := by
  have later : IsSound last rows := ⟨h.distinct, fun r hr => (h.each r hr).mono le⟩
  cases request with
  | store vs =>
    obtain ⟨prints, upserted⟩ := effect
    refine ⟨upserted.distinct h.distinct, fun t ht => ?_⟩
    rcases upserted.comes t ht with ⟨r, hr, refreshed⟩ | ⟨-, -, fresh⟩
    · exact (h.each r hr).refreshed refreshed le
    · exact fresh.isSound
  | resolve prints =>
    rcases effect with rfl | ⟨now, since, upTo, rfl⟩
    · exact later
    · refine ⟨?_, fun t ht => ?_⟩
      · rw [printsOf_resolve]
        exact h.distinct
      · obtain ⟨r, hr, rfl⟩ := List.mem_map.mp ht
        exact (h.each r hr).resolve since upTo
  | cleanup days =>
    rcases effect with rfl | ⟨limit, rfl⟩
    · exact later
    · refine ⟨nodup_printsOf_filter _ h.distinct, fun t ht => ?_⟩
      exact later.each t (List.mem_of_mem_filter ht)
  | _ =>
    cases effect
    exact later

/-- what one request does leaves every row where it is, but for resolved rows that are cleaned up -/
theorem Effect.survives (effect : Effect first last rows rows' request)
    (distinct : (printsOf rows).Nodup) {r : ViolationRow} (hr : r ∈ rows) :
    (∃ t ∈ rows', r.Survives request t) ∨
      r.fingerprint ∉ printsOf rows' ∧ (∃ days, request = .cleanup days) ∧ r.status = .resolved := by
  cases request with
  | store vs =>
    obtain ⟨prints, upserted⟩ := effect
    obtain ⟨t, ht, refreshed⟩ := upserted.stays r hr
    exact .inl ⟨t, ht, refreshed.survives⟩
  | resolve prints =>
    rcases effect with rfl | ⟨now, -, -, rfl⟩
    · exact .inl ⟨r, hr, .refl _ r⟩
    · exact .inl ⟨_, List.mem_map.mpr ⟨r, hr, rfl⟩, ViolationRow.resolve_survives⟩
  | cleanup days =>
    rcases effect with rfl | ⟨limit, rfl⟩
    · exact .inl ⟨r, hr, .refl _ r⟩
    · by_cases stale : r.isStale limit = true
      · refine .inr ⟨fun kept => ?_, ⟨days, rfl⟩, ?_⟩
        · obtain ⟨t, ht, same⟩ := mem_printsOf.mp kept
          obtain ⟨ht, unstale⟩ := List.mem_filter.mp ht
          obtain rfl : t = r := List.inj_on_of_nodup_map distinct ht hr same
          simp [stale] at unstale
        · simp only [ViolationRow.isStale, Bool.and_eq_true, decide_eq_true_eq] at stale
          exact stale.1
      · exact .inl ⟨r, List.mem_filter.mpr ⟨hr, by simpa using stale⟩, .refl _ r⟩
  | _ =>
    cases effect
    exact .inl ⟨r, hr, .refl _ r⟩

/-! ### Every reachable store -/

theorem Reached.isSound (h : Reached s now) : ∃ rows, s.violations = some rows ∧ IsSound now rows := by
  induction h with
  | empty now => exact ⟨[], rfl, List.nodup_nil, by simp⟩
  | step _ within step ih =>
    obtain ⟨rows, known, sound⟩ := ih
    obtain ⟨rows', left, effect⟩ := step.exists_effect within known
    exact ⟨rows', left, sound.effect effect within.le⟩

/-- **The life of a violation.** In every store that comes about from an empty one by requests that are
answered, undone or cut short, no two rows have one fingerprint; every row is active or resolved; it has
a moment of resolution just if it is resolved; and it was last seen neither before it was first seen nor
after it was resolved.  Whatever is asked next, a row that is still there keeps the moment at which it
was first seen, is resolved only by a request to resolve and active again only by one to store; and a
row that is gone was resolved and has been cleaned up. -/
theorem lifecycle (h : Reached s now) :
    ∃ rows, s.violations = some rows ∧ (printsOf rows).Nodup ∧
      (∀ r ∈ rows,
        (r.status.name = "active" ∨ r.status.name = "resolved") ∧
        (r.status.name = "resolved" ↔ ∃ t, r.resolvedAt = some t) ∧
        r.firstSeen ≤ r.lastSeen ∧
        ∀ t, r.resolvedAt = some t → r.lastSeen ≤ t) ∧
      ∀ (k : StoreSettings) (clock : Clock) (later : Instant) (request : Request) (t : Store),
        clock.Within now later → Step k clock s request t →
        ∃ rows', t.violations = some rows' ∧ ∀ r ∈ rows,
          (∀ r' ∈ rows', r'.fingerprint = r.fingerprint →
            r'.firstSeen = r.firstSeen ∧
            (r.status = .active → r'.status = .resolved → ∃ prints, request = .resolve prints) ∧
            (r.status = .resolved → r'.status = .active → ∃ vs, request = .store vs)) ∧
          ((∀ r' ∈ rows', r'.fingerprint ≠ r.fingerprint) →
            (∃ days, request = .cleanup days) ∧ r.status = .resolved) := by
  obtain ⟨rows, known, sound⟩ := h.isSound
  refine ⟨rows, known, sound.distinct, fun r hr => ?_, fun k clock later request t within step => ?_⟩
  · have row := sound.each r hr
    refine ⟨?_, ?_, row.seen, row.resolved⟩
    · cases r.status
      · exact .inl rfl
      · exact .inr rfl
    · rw [← row.status]
      cases r.status <;> decide
  · obtain ⟨rows', left, effect⟩ := step.exists_effect within known
    have sound' := sound.effect effect within.le
    refine ⟨rows', left, fun r hr => ?_⟩
    rcases effect.survives sound.distinct hr with ⟨t, ht, survives⟩ | ⟨gone, cleaned, resolved⟩
    · refine ⟨fun r' hr' same => ?_, fun gone => absurd survives.print (gone t ht)⟩
      obtain rfl : r' = t :=
        List.inj_on_of_nodup_map sound'.distinct hr' ht (same.trans survives.print.symm)
      exact ⟨survives.firstSeen, survives.resolved, survives.reopened⟩
    · refine ⟨fun r' hr' same => ?_, fun _ => ⟨cleaned, resolved⟩⟩
      exact absurd (mem_printsOf.mpr ⟨r', hr', same⟩) gone

/-- a violation as it is mostly reported -/
def sample : Violation :=
  ⟨.text "a.ts", .int 1, .text "x", .known .codeQuality, .known .warn, .known .custom, .null, .null,
    .null, .null⟩

/-- a store in which a violation was found at one moment -/
def found : Store := (respond {} (.still ⟨1⟩) .empty (.store [sample])).2

/-- the same store once all that is in it was resolved at the next moment -/
def settledStore : Store :=
  (respond {} (.still ⟨2⟩) found (.resolve ((found.violations.map printsOf).getD []))).2

theorem settledStore_reached : Reached settledStore ⟨2⟩ :=
  .step (.step (.empty ⟨1⟩) (.still ⟨1⟩) (.answered _))
    ⟨fun _ => Nat.le_succ 1, fun _ => le_refl _, fun _ _ _ => le_refl _⟩ (.answered _)

theorem lifecycle_settled :
    Reached settledStore ⟨2⟩ ∧ ∃ rows, settledStore.violations = some rows ∧
      rows.map (fun r => (r.status, r.firstSeen, r.resolvedAt)) = [(.resolved, ⟨1⟩, some ⟨2⟩)] ∧
      ∀ r ∈ rows, r.firstSeen ≤ r.lastSeen := by
  obtain ⟨rows, known, -, each, -⟩ := lifecycle settledStore_reached
  refine ⟨settledStore_reached, rows, known, ?_, fun r hr => (each r hr).2.2.1⟩
  have shown : settledStore.violations.map
      (·.map fun r => (r.status, r.firstSeen, r.resolvedAt)) = some [(.resolved, ⟨1⟩, some ⟨2⟩)] := by
    decide +kernel
  rw [known] at shown
  exact Option.some.inj shown

end Store

end LintLedger
