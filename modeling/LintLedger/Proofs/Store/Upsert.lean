import LintLedger.Proofs.Outcome
import LintLedger.Store.Violations
import Mathlib

/-!
# What storing violations does to the rows

Whatever violations are stored, and however many of their batches are written before one fails, the
rows afterwards are an *upsert* of the rows before (`Upserted`): every row stays, seen again if its
fingerprint was among those written and untouched otherwise, and all that comes is one new row for each
fingerprint that had none.  One batch is such an upsert (`storeBatch_upserted`), upserts one after
another are one (`Upserted.trans`), and so are all batches together (`storeBatches_upserted`).

An upsert goes by an order of moments, which says of two moments whether a row may have been written at
the one and last seen at the other.  Of the rows that a clock writes, it is the order in which the clock
shows moments (`Clock.Shows`), whether or not it ever goes back.
-/

namespace LintLedger

open Outcome

/-! ### Moments -/

instance : PartialOrder Instant :=
  PartialOrder.lift Instant.micros fun _ _ same => congrArg Instant.mk same

/-- an order of moments, as far as rows can tell -/
abbrev Moments : Type := Instant → Instant → Prop

namespace Moments

/-- any two moments -/
def any : Moments := fun _ _ => True

/-- one moment only -/
def only (now : Instant) : Moments := fun a b => a = now ∧ b = now

/-- the moments between two others, in their order -/
def between (first last : Instant) : Moments := fun a b => first ≤ a ∧ a ≤ b ∧ b ≤ last

/-- whether an order has all that two others allow, one after the other -/
structure Joins (early late whole : Moments) : Prop where
  left : ∀ a b, early a b → whole a b
  right : ∀ a b, late a b → whole a b
  across : ∀ a b c, early a b → late c c → whole a c

theorem joins_any (early late : Moments) : Joins early late any :=
  ⟨fun _ _ _ => trivial, fun _ _ _ => trivial, fun _ _ _ _ _ => trivial⟩

end Moments

namespace Clock

/-- the order in which a clock shows moments: the one at some reading, the other at the same or later -/
def Shows (clock : Clock) : Moments := fun a b => ∃ i j, i ≤ j ∧ clock i = a ∧ clock j = b

variable {clock : Clock} {first last : Instant}

/-- a clock shows its first moment, and then what it shows once it has been read -/
theorem joins_shows (clock : Clock) :
    Moments.Joins (.only (clock 0)) clock.next.Shows clock.Shows where
  left := by
    rintro a b ⟨rfl, rfl⟩
    exact ⟨0, 0, le_refl 0, rfl, rfl⟩
  right := by
    rintro a b ⟨i, j, le, rfl, rfl⟩
    exact ⟨i + 1, j + 1, Nat.succ_le_succ le, rfl, rfl⟩
  across := by
    rintro a b c ⟨rfl, rfl⟩ ⟨i, -, -, rfl, -⟩
    exact ⟨0, i + 1, Nat.zero_le _, rfl, rfl⟩

/-- a clock that never goes back and shows moments between two others -/
structure Within (clock : Clock) (first last : Instant) : Prop where
  begins : ∀ n, first ≤ clock n
  ends : ∀ n, clock n ≤ last
  steady : ∀ m n, m ≤ n → clock m ≤ clock n

namespace Within

theorem still (now : Instant) : (Clock.still now).Within now now where
  begins _ := le_refl now
  ends _ := le_refl now
  steady _ _ _ := le_refl now

theorem le (h : clock.Within first last) : first ≤ last := (h.begins 0).trans (h.ends 0)

theorem between (h : clock.Within first last) {a b : Instant} (shown : clock.Shows a b) :
    Moments.between first last a b := by
  obtain ⟨i, j, le, rfl, rfl⟩ := shown
  exact ⟨h.begins i, h.steady i j le, h.ends j⟩

end Within

end Clock

/-! ### Rows -/

namespace ViolationRow

/-- a row that was written and last seen at moments in an order and never resolved -/
structure IsFresh (order : Moments) (r : ViolationRow) : Prop where
  times : order r.firstSeen r.lastSeen
  active : r.status = .active
  unresolved : r.resolvedAt = none

/-- what becomes of a row when violations with some fingerprints are written: it is seen again if its
own is one of them, and stays as it is otherwise -/
def Refreshed (order : Moments) (prints : List String) (r t : ViolationRow) : Prop :=
  (r.fingerprint ∈ prints ∧ ∃ now, order now now ∧ t = r.seen now) ∨ (r.fingerprint ∉ prints ∧ t = r)

variable {early late whole : Moments} {prints more : List String} {r t u : ViolationRow}

theorem Refreshed.fingerprint (h : r.Refreshed early prints t) : t.fingerprint = r.fingerprint := by
  rcases h with ⟨-, now, -, rfl⟩ | ⟨-, rfl⟩ <;> rfl

theorem Refreshed.firstSeen (h : r.Refreshed early prints t) : t.firstSeen = r.firstSeen := by
  rcases h with ⟨-, now, -, rfl⟩ | ⟨-, rfl⟩ <;> rfl

theorem Refreshed.mono (h : r.Refreshed early prints t) (le : ∀ a b, early a b → late a b) :
    r.Refreshed late prints t := by
  rcases h with ⟨written, now, shown, rfl⟩ | kept
  · exact .inl ⟨written, now, le now now shown, rfl⟩
  · exact .inr kept

theorem Refreshed.trans (h : r.Refreshed early prints t) (g : t.Refreshed late more u)
    (joins : Moments.Joins early late whole) : r.Refreshed whole (prints ++ more) u := by
  rcases h with ⟨hr, now, shown, rfl⟩ | ⟨hr, rfl⟩
  · rcases g with ⟨-, now', shown', rfl⟩ | ⟨-, rfl⟩
    · exact .inl ⟨List.mem_append_left _ hr, now', joins.right _ _ shown', rfl⟩
    · exact .inl ⟨List.mem_append_left _ hr, now, joins.left _ _ shown, rfl⟩
  · rcases g with ⟨ht, now', shown', rfl⟩ | ⟨ht, rfl⟩
    · exact .inl ⟨List.mem_append_right _ ht, now', joins.right _ _ shown', rfl⟩
    · exact .inr ⟨by simp [hr, ht], rfl⟩

theorem IsFresh.mono (h : r.IsFresh early) (le : ∀ a b, early a b → late a b) : r.IsFresh late :=
  ⟨le _ _ h.times, h.active, h.unresolved⟩

theorem IsFresh.refreshed (h : r.IsFresh early) (g : r.Refreshed late prints t)
    (joins : Moments.Joins early late whole) : t.IsFresh whole := by
  rcases g with ⟨-, now, shown, rfl⟩ | ⟨-, rfl⟩
  · exact ⟨joins.across _ _ _ h.times shown, rfl, rfl⟩
  · exact h.mono joins.left

end ViolationRow

namespace Store

/-- the fingerprints of rows -/
def printsOf (rows : List ViolationRow) : List String := rows.map (·.fingerprint)

theorem mem_printsOf {rows : List ViolationRow} {f : String} :
    f ∈ printsOf rows ↔ ∃ r ∈ rows, r.fingerprint = f := List.mem_map

theorem nodup_printsOf_filter {rows : List ViolationRow} (p : ViolationRow → Bool)
    (apart : (printsOf rows).Nodup) : (printsOf (rows.filter p)).Nodup :=
  apart.sublist (List.filter_sublist.map _)

/-- rows as they are once violations with some fingerprints have been written, by an order of moments -/
structure Upserted (order : Moments) (prints : List String) (rows rows' : List ViolationRow) : Prop where
  stays : ∀ r ∈ rows, ∃ t ∈ rows', r.Refreshed order prints t
  comes : ∀ t ∈ rows', (∃ r ∈ rows, r.Refreshed order prints t) ∨
    t.fingerprint ∈ prints ∧ t.fingerprint ∉ printsOf rows ∧ t.IsFresh order
  covers : ∀ f ∈ prints, f ∈ printsOf rows'
  distinct : (printsOf rows).Nodup → (printsOf rows').Nodup

namespace Upserted

variable {order early late whole : Moments} {prints more : List String}
  {rows rows' rows'' : List ViolationRow}

theorem refl (order : Moments) (rows : List ViolationRow) : Upserted order [] rows rows where
  stays r hr := ⟨r, hr, .inr ⟨List.not_mem_nil, rfl⟩⟩
  comes r hr := .inl ⟨r, hr, .inr ⟨List.not_mem_nil, rfl⟩⟩
  covers _ hf := absurd hf List.not_mem_nil
  distinct nodup := nodup

theorem mono (h : Upserted early prints rows rows') (le : ∀ a b, early a b → late a b) :
    Upserted late prints rows rows' where
  stays r hr := by
    obtain ⟨t, ht, refreshed⟩ := h.stays r hr
    exact ⟨t, ht, refreshed.mono le⟩
  comes t ht := by
    rcases h.comes t ht with ⟨r, hr, refreshed⟩ | ⟨written, unknown, fresh⟩
    · exact .inl ⟨r, hr, refreshed.mono le⟩
    · exact .inr ⟨written, unknown, fresh.mono le⟩
  covers := h.covers
  distinct := h.distinct

/-- the fingerprints of an upsert are those that were there and those that were written -/
theorem mem_printsOf_iff (h : Upserted order prints rows rows') {f : String} :
    f ∈ printsOf rows' ↔ f ∈ printsOf rows ∨ f ∈ prints := by
  constructor
  · intro hf
    obtain ⟨t, ht, rfl⟩ := mem_printsOf.mp hf
    rcases h.comes t ht with ⟨r, hr, refreshed⟩ | ⟨written, -⟩
    · exact .inl (mem_printsOf.mpr ⟨r, hr, refreshed.fingerprint.symm⟩)
    · exact .inr written
  · rintro (hf | hf)
    · obtain ⟨r, hr, rfl⟩ := mem_printsOf.mp hf
      obtain ⟨t, ht, refreshed⟩ := h.stays r hr
      exact mem_printsOf.mpr ⟨t, ht, refreshed.fingerprint⟩
    · exact h.covers f hf

/-- what was active stays so, and what was written becomes so -/
theorem exists_active_iff (h : Upserted order prints rows rows') {f : String} :
    (∃ t ∈ rows', t.status = .active ∧ t.fingerprint = f) ↔
      (∃ r ∈ rows, r.status = .active ∧ r.fingerprint = f) ∨ f ∈ prints := by
  constructor
  · rintro ⟨t, ht, active, rfl⟩
    rcases h.comes t ht with ⟨r, hr, ⟨written, now, -, rfl⟩ | ⟨-, rfl⟩⟩ | ⟨written, -⟩
    · exact .inr written
    · exact .inl ⟨t, hr, active, rfl⟩
    · exact .inr written
  · rintro (⟨r, hr, active, rfl⟩ | hf)
    · obtain ⟨t, ht, refreshed⟩ := h.stays r hr
      refine ⟨t, ht, ?_, refreshed.fingerprint⟩
      rcases refreshed with ⟨-, now, -, rfl⟩ | ⟨-, rfl⟩
      · rfl
      · exact active
    · obtain ⟨t, ht, rfl⟩ := mem_printsOf.mp (h.covers f hf)
      refine ⟨t, ht, ?_, rfl⟩
      rcases h.comes t ht with ⟨r, hr, ⟨-, now, -, rfl⟩ | ⟨unwritten, rfl⟩⟩ | ⟨-, -, fresh⟩
      · rfl
      · exact absurd hf unwritten
      · exact fresh.active

/-- upserts one after another are one -/
theorem trans (h : Upserted early prints rows rows') (g : Upserted late more rows' rows'')
    (joins : Moments.Joins early late whole) : Upserted whole (prints ++ more) rows rows'' where
  stays r hr := by
    obtain ⟨t, ht, one⟩ := h.stays r hr
    obtain ⟨u, hu, two⟩ := g.stays t ht
    exact ⟨u, hu, one.trans two joins⟩
  comes u hu := by
    rcases g.comes u hu with ⟨t, ht, two⟩ | ⟨written, unknown, fresh⟩
    · rcases h.comes t ht with ⟨r, hr, one⟩ | ⟨written, unknown, fresh⟩
      · exact .inl ⟨r, hr, one.trans two joins⟩
      · refine .inr ⟨?_, ?_, fresh.refreshed two joins⟩
        · exact two.fingerprint ▸ List.mem_append_left _ written
        · exact two.fingerprint ▸ unknown
    · refine .inr ⟨List.mem_append_right _ written, ?_, fresh.mono joins.right⟩
      exact fun known => unknown (h.mem_printsOf_iff.mpr (.inl known))
  covers f hf := by
    rw [g.mem_printsOf_iff]
    rcases List.mem_append.mp hf with hf | hf
    · exact .inl (h.covers f hf)
    · exact .inr hf
  distinct nodup := g.distinct (h.distinct nodup)

end Upserted

/-! ### One batch -/

theorem newRow_isFresh {now : Instant} {f : String} {v : Violation} {r : ViolationRow}
    (h : newRow now f v = .ok r) : r.fingerprint = f ∧ r.IsFresh (.only now) := by
  obtain ⟨file, -, h⟩ := bind_eq_ok.mp h
  obtain ⟨line, -, h⟩ := bind_eq_ok.mp h
  obtain ⟨column, -, h⟩ := bind_eq_ok.mp h
  obtain ⟨message, -, h⟩ := bind_eq_ok.mp h
  obtain ⟨code, -, h⟩ := bind_eq_ok.mp h
  obtain ⟨category, -, h⟩ := bind_eq_ok.mp h
  obtain ⟨severity, -, h⟩ := bind_eq_ok.mp h
  obtain ⟨source, -, h⟩ := bind_eq_ok.mp h
  obtain ⟨rule, -, h⟩ := bind_eq_ok.mp h
  obtain ⟨fix, -, h⟩ := bind_eq_ok.mp h
  cases h
  exact ⟨rfl, ⟨rfl, rfl⟩, rfl, rfl⟩

/-- a batch as it stands once the violations of some fingerprints have been taken up -/
structure Pending.Takes (rows : List ViolationRow) (now : Instant) (taken : List String)
    (p : Pending) : Prop where
  count : p.inserted.length + p.seen.length = taken.length
  prints : ∀ f, f ∈ taken ↔ f ∈ p.seen ∨ f ∈ printsOf p.inserted
  known : ∀ f ∈ p.seen, f ∈ printsOf rows ∨ f ∈ printsOf p.inserted
  distinct : (printsOf p.inserted).Nodup
  fresh : ∀ r ∈ p.inserted, r.fingerprint ∉ printsOf rows ∧ r.IsFresh (.only now)

variable {rows rows' : List ViolationRow} {now : Instant} {p q : Pending}

theorem any_isRow {f : String} : rows.any (isRow f) = true ↔ f ∈ printsOf rows := by
  simp [isRow, printsOf]

/-- one more violation of a batch is either seen again or a new row -/
theorem Pending.Takes.pend {taken : List String} {item : String × Violation}
    (h : p.Takes rows now taken) (step : Store.pend rows now p item = .ok q) :
    q.Takes rows now (taken ++ [item.1]) := by
  have count := h.count
  unfold Store.pend at step
  split at step
  · rename_i known
    rw [Bool.or_eq_true, any_isRow, any_isRow] at known
    cases step
    refine ⟨?_, fun f => ?_, fun f hf => ?_, h.distinct, h.fresh⟩
    · simp only [List.length_append, List.length_singleton]
      omega
    · simp only [List.mem_append, List.mem_singleton, h.prints]
      tauto
    · rcases List.mem_append.mp hf with hf | hf
      · exact h.known f hf
      · rw [List.mem_singleton.mp hf]
        exact known
  · rename_i unknown
    rw [Bool.or_eq_true, any_isRow, any_isRow, not_or] at unknown
    obtain ⟨row, made, rfl⟩ := map_eq_ok.mp step
    obtain ⟨print, fresh⟩ := newRow_isFresh made
    have prints : printsOf (p.inserted ++ [row]) = printsOf p.inserted ++ [item.1] := by
      simp [printsOf, print]
    refine ⟨?_, fun f => ?_, fun f hf => ?_, ?_, fun r hr => ?_⟩
    · simp only [List.length_append, List.length_singleton]
      omega
    · simp only [prints, List.mem_append, List.mem_singleton, h.prints]
      tauto
    · rw [prints, List.mem_append]
      have := h.known f hf
      tauto
    · rw [prints]
      exact List.nodup_append.mpr ⟨h.distinct, List.nodup_singleton _, by
        rintro f hf g hg rfl
        exact unknown.2 (List.mem_singleton.mp hg ▸ hf)⟩
    · rcases List.mem_append.mp hr with hr | hr
      · exact h.fresh r hr
      · rw [List.mem_singleton.mp hr, print]
        exact ⟨unknown.1, fresh⟩

/-- a whole batch taken up -/
theorem Pending.Takes.foldlM {taken : List String} {batch : List (String × Violation)}
    (h : p.Takes rows now taken) (run : batch.foldlM (Store.pend rows now) p = .ok q) :
    q.Takes rows now (taken ++ batch.map Prod.fst) := by
  induction batch generalizing p taken with
  | nil =>
    cases run
    simpa using h
  | cons item rest ih =>
    rw [List.foldlM_cons] at run
    obtain ⟨mid, step, run⟩ := bind_eq_ok.mp run
    simpa using ih (h.pend step) run

theorem printsOf_apply : printsOf (p.apply now rows) = printsOf rows ++ printsOf p.inserted := by
  unfold Pending.apply printsOf
  rw [List.map_map, ← List.map_append]
  refine List.map_congr_left fun r _ => ?_
  dsimp only [Function.comp]
  split <;> rfl

/-- one batch written is an upsert at one moment, with a count of new rows and of rows seen again -/
theorem storeBatch_upserted {batch : List (String × Violation)}
    (h : storeBatch now rows batch = .ok (rows', p)) :
    Upserted (.only now) (batch.map Prod.fst) rows rows' ∧
      rows'.length = rows.length + p.inserted.length ∧
      p.inserted.length + p.seen.length = batch.length := by
  obtain ⟨q, run, h⟩ := bind_eq_ok.mp h
  cases h
  have start : ({} : Pending).Takes rows now [] :=
    ⟨rfl, by simp [printsOf], by simp, List.nodup_nil, by simp⟩
  have takes : p.Takes rows now (batch.map Prod.fst) := start.foldlM run
  -- a row that was there before is seen again just if its fingerprint is one of the batch
  have touched : ∀ r ∈ rows, (r.fingerprint ∈ batch.map Prod.fst ↔ r.fingerprint ∈ p.seen) := by
    intro r hr
    rw [takes.prints]
    refine or_iff_left fun inserted => ?_
    obtain ⟨t, ht, same⟩ := mem_printsOf.mp inserted
    exact (takes.fresh t ht).1 (same ▸ mem_printsOf.mpr ⟨r, hr, rfl⟩)
  have refreshed : ∀ r ∈ rows, r.Refreshed (.only now) (batch.map Prod.fst)
      (if p.seen.contains r.fingerprint then r.seen now else r) := by
    intro r hr
    by_cases seen : r.fingerprint ∈ p.seen
    · rw [if_pos (by simpa using seen)]
      exact .inl ⟨(touched r hr).mpr seen, now, ⟨rfl, rfl⟩, rfl⟩
    · rw [if_neg (by simpa using seen)]
      exact .inr ⟨fun written => seen ((touched r hr).mp written), rfl⟩
  refine ⟨⟨fun r hr => ?_, fun t ht => ?_, fun f hf => ?_, fun nodup => ?_⟩, ?_, ?_⟩
  · exact ⟨_, List.mem_map.mpr ⟨r, List.mem_append_left _ hr, rfl⟩, refreshed r hr⟩
  · obtain ⟨r, hr, rfl⟩ := List.mem_map.mp ht
    rcases List.mem_append.mp hr with hr | hr
    · exact .inl ⟨r, hr, refreshed r hr⟩
    · obtain ⟨unknown, fresh⟩ := takes.fresh r hr
      have written : r.fingerprint ∈ batch.map Prod.fst :=
        (takes.prints _).mpr (.inr (mem_printsOf.mpr ⟨r, hr, rfl⟩))
      refine .inr ?_
      split
      · exact ⟨written, unknown, ⟨fresh.times.1, rfl⟩, rfl, rfl⟩
      · exact ⟨written, unknown, fresh⟩
  · rw [printsOf_apply, List.mem_append]
    rcases (takes.prints f).mp hf with seen | inserted
    · exact takes.known f seen
    · exact .inr inserted
  · rw [printsOf_apply]
    refine List.nodup_append.mpr ⟨nodup, takes.distinct, ?_⟩
    rintro f hf g hg rfl
    obtain ⟨t, ht, rfl⟩ := mem_printsOf.mp hg
    exact (takes.fresh t ht).1 hf
  · unfold Pending.apply
    rw [List.length_map, List.length_append]
  · rw [takes.count, List.length_map]

/-! ### All batches -/

/-- the fingerprints of batches -/
def printsIn (batches : List (List (String × Violation))) : List String :=
  batches.flatten.map Prod.fst

/-- batches written one after another are an upsert of the first few of them, of all of them if none
failed -/
theorem storeBatches_upserted (clock : Clock) (result : StoreResult)
    (batches : List (List (String × Violation))) (rows : List ViolationRow) :
    ∃ n ≤ batches.length,
      Upserted clock.Shows (printsIn (batches.take n)) rows
        (storeBatches clock result batches rows).2.1 ∧
      ∀ r, (storeBatches clock result batches rows).1 = .ok r → n = batches.length ∧
        rows.length + r.inserted =
          (storeBatches clock result batches rows).2.1.length + result.inserted ∧
        r.inserted + r.updated = result.inserted + result.updated + batches.flatten.length ∧
        r.errors = result.errors := by
  induction batches generalizing clock result rows with
  | nil =>
    refine ⟨0, le_refl 0, .refl clock.Shows rows, ?_⟩
    rintro r ⟨⟩
    exact ⟨rfl, rfl, by simp, rfl⟩
  | cons batch rest ih =>
    unfold storeBatches
    cases stored : storeBatch (clock 0) rows batch with
    | error f =>
      refine ⟨0, Nat.zero_le _, .refl clock.Shows rows, ?_⟩
      rintro r ⟨⟩
    | ok out =>
      obtain ⟨mid, p⟩ := out
      obtain ⟨one, length, count⟩ := storeBatch_upserted stored
      obtain ⟨n, le, more, counts⟩ := ih clock.next
        { result with
          inserted := result.inserted + p.inserted.length
          updated := result.updated + p.seen.length }
        mid
      refine ⟨n + 1, Nat.succ_le_succ le, ?_, fun r hr => ?_⟩
      · simpa [printsIn] using one.trans more clock.joins_shows
      · obtain ⟨all, inserted, both, errors⟩ := counts r hr
        dsimp only at inserted both ⊢
        simp only [List.flatten_cons, List.length_append, List.length_cons]
        exact ⟨by omega, by omega, by omega, errors⟩

end Store

end LintLedger
