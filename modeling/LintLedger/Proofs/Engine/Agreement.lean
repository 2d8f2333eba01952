import LintLedger.Proofs.Engine.Progress
import Mathlib

/-!
# Delta and store agree

A cycle records the change of its batch as against the active violations and then stores the batch, in
two pieces of work that each go through the batch on their own.  If the cycle ends well the two agree,
whatever cycles, resolving and cleaning up have gone before: its counts say what happened to the rows,
and its history is all that stands under its number (`delta_agrees`).  What carries the proof is that
the store is tracked: no fingerprint has two rows, and every check in the history is known, so that the
number of a new check is new to the history as well.
-/

namespace LintLedger

open Outcome

namespace Store

/-- the rows with some fingerprints that were resolved in one store and are active in another -/
def reopened (prints : Finset String) (s t : Store) : List ViolationRow :=
  s.rowsOf.filter fun r =>
    r.fingerprint ∈ prints ∧ r.status = .resolved ∧ r.fingerprint ∈ t.activePrints

end Store

namespace Engine

open Store

variable {e : Engine} {clock : Clock} {target : Option String} {s : Store} {c : Cycle}

/-- what a cycle that ended well makes of a store; the second reading of its clock goes into the
history -/
structure Makes (clock : Clock) (s t : Store) (c : Cycle) : Prop where
  delta : c.delta = .between (activeFingerprints s.rowsOf)
    (distinct (Violation.acceptedPrints c.analysis.violations))
  rows : Upserted .any (Violation.acceptedPrints c.analysis.violations) s.rowsOf t.rowsOf
  inserted : s.rowsOf.length + c.stored.inserted = t.rowsOf.length
  accepted : c.stored.inserted + c.stored.updated = c.analysis.violations.countP Violation.isAccepted
  total : c.stored.inserted + c.stored.updated + c.stored.errors.length = c.analysis.violations.length
  history : t.historyRows = s.historyRows ++ historyOf (clock 1) c.check s.historyRows c.delta
  number : c.check ∉ s.checkIds
  tracked : t.Tracked

theorem historyOf_of_entries_eq_nil {now : Instant} {check : Int} {history : List HistoryRow} {d : Delta}
    (h : d.entries = []) : historyOf now check history d = [] := by
  unfold historyOf numbered
  rw [h]
  rfl

theorem cycle_makes (tracked : s.Tracked) (sized : ∀ k, e.keeping = some k → 0 < k.batchSize)
    (h : (e.cycle clock target s).1 = .ok c) : Makes clock s (e.cycle clock target s).2.2 c := by
  have after := (cycle_advances e clock target tracked).tracked tracked
  obtain ⟨k, keeping, -, begun, recorded, stored, later, started, compared, written, kept⟩ :=
    cycle_eq_ok h
  generalize (e.cycle clock target s).2.2 = t at kept after ⊢
  have fresh := (startCheck_fresh started).1
  obtain ⟨checks, row, -, -, -, rfl⟩ := startCheck_eq_ok started
  obtain ⟨rows, hrows, delta, more⟩ := recordDeltas_eq_ok compared
  obtain rfl : s.rowsOf = rows := Option.some.inj (tracked.violations.symm.trans hrows)
  -- the change is recorded in the history and touches nothing else
  have history : recorded = { s with
      checks := some (checks ++ [row])
      history := some (s.historyRows ++ historyOf (clock 1) c.check s.historyRows c.delta) } := by
    rcases more with ⟨nothing, rfl⟩ | ⟨history, check, hhistory, hcheck, rfl⟩
    · rw [historyOf_of_entries_eq_nil nothing, List.append_nil, ← tracked.history]
    · obtain rfl := countColumn_int hcheck
      obtain rfl : s.historyRows = history := Option.some.inj (tracked.history.symm.trans hhistory)
      rfl
  have unchanged : recorded.violations = some s.rowsOf := by
    rw [history]
    exact tracked.violations
  obtain ⟨rows', rfl, upserted, inserted, accepted, total⟩ :=
    storeViolations_eq_ok (sized k keeping) unchanged written
  subst history
  have hrows' : t.rowsOf = rows' := by
    unfold rowsOf
    rw [kept.violations]
    rfl
  have hhistory : t.historyRows = s.historyRows ++ historyOf (clock 1) c.check s.historyRows c.delta := by
    unfold historyRows
    rw [kept.history]
    rfl
  have upserted : Upserted .any (Violation.acceptedPrints c.analysis.violations) s.rowsOf rows' :=
    upserted.mono fun _ _ _ => trivial
  exact ⟨delta, hrows' ▸ upserted, hrows' ▸ inserted, accepted, total, hhistory, fresh, after⟩

end Engine

/-- the fingerprints of the violations of a cycle that have no problems -/
def Cycle.accepted (c : Cycle) : Finset String :=
  (Violation.acceptedPrints c.analysis.violations).toFinset

namespace Engine

open Store

namespace Makes

variable {clock : Clock} {s t : Store} {c : Cycle}

theorem delta_eq (h : Makes clock s t c) :
    c.delta.added.toFinset = c.accepted \ s.activePrints ∧
      c.delta.removed.toFinset = s.activePrints \ c.accepted ∧
      c.delta.unchanged.toFinset = c.accepted ∩ s.activePrints := by
  have current : ∀ f, f ∈ distinct (Violation.acceptedPrints c.analysis.violations) ↔ f ∈ c.accepted := by
    intro f
    rw [mem_distinct, Cycle.accepted, List.mem_toFinset]
  have previous : ∀ f, f ∈ activeFingerprints s.rowsOf ↔ f ∈ s.activePrints := by
    intro f
    rw [mem_activeFingerprints, activePrints, List.mem_toFinset]
  rw [h.delta]
  refine ⟨?_, ?_, ?_⟩
  · ext f
    rw [List.mem_toFinset, Delta.mem_between.1, Finset.mem_sdiff, current, previous]
  · ext f
    rw [List.mem_toFinset, Delta.mem_between.2.1, Finset.mem_sdiff, current, previous]
  · ext f
    rw [List.mem_toFinset, Delta.mem_between.2.2, Finset.mem_inter, current, previous]

theorem prints_eq (h : Makes clock s t c) : t.prints = s.prints ∪ c.accepted := by
  ext f
  unfold prints Cycle.accepted
  rw [Finset.mem_union, List.mem_toFinset, List.mem_toFinset, List.mem_toFinset,
    h.rows.mem_printsOf_iff]

/-- what was active stays so, and what is accepted becomes so -/
theorem activePrints_eq (h : Makes clock s t c) : t.activePrints = s.activePrints ∪ c.accepted := by
  ext f
  rw [Finset.mem_union, Cycle.accepted, List.mem_toFinset, mem_activePrints, mem_activePrints,
    h.rows.exists_active_iff]

/-- each new row is one of an accepted fingerprint that had none -/
theorem inserted_eq (h : Makes clock s t c) (tracked : s.Tracked) :
    c.stored.inserted = (c.accepted \ s.prints).card := by
  have before : s.prints.card = s.rowsOf.length := by
    rw [prints, List.toFinset_card_of_nodup tracked.distinct, printsOf, List.length_map]
  have after : t.prints.card = t.rowsOf.length := by
    rw [prints, List.toFinset_card_of_nodup h.tracked.distinct, printsOf, List.length_map]
  have both := Finset.card_sdiff_add_card c.accepted s.prints
  rw [Finset.union_comm, ← h.prints_eq, before, after] at both
  have := h.inserted
  omega

/-- the fingerprints that were resolved and are active again -/
theorem reopened_eq (h : Makes clock s t c) (tracked : s.Tracked) :
    (printsOf (reopened c.accepted s t)).toFinset = c.accepted ∩ (s.prints \ s.activePrints) := by
  ext f
  rw [List.mem_toFinset, mem_printsOf, Finset.mem_inter, Finset.mem_sdiff]
  unfold reopened
  constructor
  · rintro ⟨r, hr, rfl⟩
    obtain ⟨hr, found⟩ := List.mem_filter.mp hr
    obtain ⟨accepted, resolved, -⟩ := of_decide_eq_true found
    refine ⟨accepted, mem_prints.mpr ⟨r, hr, rfl⟩, fun known => ?_⟩
    obtain ⟨u, hu, active, same⟩ := mem_activePrints.mp known
    obtain rfl : u = r := List.inj_on_of_nodup_map tracked.distinct hu hr same
    rw [resolved] at active
    cases active
  · rintro ⟨accepted, known, inactive⟩
    obtain ⟨r, hr, rfl⟩ := mem_prints.mp known
    refine ⟨r, List.mem_filter.mpr ⟨hr, decide_eq_true ⟨accepted, ?_, ?_⟩⟩, rfl⟩
    · cases status : r.status with
      | active => exact absurd (mem_activePrints.mpr ⟨r, hr, status, rfl⟩) inactive
      | resolved => rfl
    · rw [h.activePrints_eq]
      exact Finset.mem_union_right _ accepted

theorem nodup_delta (h : Makes clock s t c) (tracked : s.Tracked) :
    (c.delta.entries.map Prod.snd).Nodup := by
  rw [h.delta]
  exact Delta.nodup_entries (nodup_activeFingerprints tracked.distinct) (nodup_distinct _)

/-- what was added is new to the store or active again -/
theorem added_eq (h : Makes clock s t c) (tracked : s.Tracked) :
    c.delta.added.length = c.stored.inserted + (reopened c.accepted s t).length := by
  have distinct : c.delta.added.Nodup := by
    have all := h.nodup_delta tracked
    rw [Delta.map_entries, List.append_assoc] at all
    exact all.of_append_left
  have distinct' : (printsOf (reopened c.accepted s t)).Nodup := nodup_printsOf_filter _ tracked.distinct
  have split : c.accepted \ s.activePrints =
      (c.accepted \ s.prints) ∪ (c.accepted ∩ (s.prints \ s.activePrints)) := by
    ext f
    have := @activePrints_subset s f
    simp only [Finset.mem_sdiff, Finset.mem_union, Finset.mem_inter]
    tauto
  have apart : Disjoint (c.accepted \ s.prints) (c.accepted ∩ (s.prints \ s.activePrints)) := by
    rw [Finset.disjoint_left]
    intro f hf hf'
    simp only [Finset.mem_sdiff, Finset.mem_inter] at hf hf'
    exact hf.2 hf'.2.1
  calc c.delta.added.length
      = (c.accepted \ s.activePrints).card := by
        rw [← h.delta_eq.1, List.toFinset_card_of_nodup distinct]
    _ = (c.accepted \ s.prints).card + (c.accepted ∩ (s.prints \ s.activePrints)).card := by
        rw [split, Finset.card_union_of_disjoint apart]
    _ = c.stored.inserted + (reopened c.accepted s t).length := by
        rw [h.inserted_eq tracked, ← h.reopened_eq tracked, List.toFinset_card_of_nodup distinct',
          printsOf, List.length_map]

/-- the history of a cycle is one row for each fingerprint of its change -/
theorem historyUnder_eq (h : Makes clock s t c) (tracked : s.Tracked) :
    s.historyUnder c.check = [] ∧
      (t.historyUnder c.check).map (fun r => (r.action, r.fingerprint)) = c.delta.entries := by
  have old : s.historyUnder c.check = [] := by
    unfold historyUnder
    rw [List.filter_eq_nil_iff]
    intro r hr
    have known := tracked.checked r hr
    simp only [decide_eq_true_eq]
    exact fun same => h.number (same ▸ known)
  have new : (historyOf (clock 1) c.check s.historyRows c.delta).filter (·.check = c.check) =
      historyOf (clock 1) c.check s.historyRows c.delta := by
    rw [List.filter_eq_self]
    exact fun r hr => by simpa using check_of_mem_historyOf hr
  refine ⟨old, ?_⟩
  unfold historyUnder at old ⊢
  rw [h.history, List.filter_append, old, new, List.nil_append, map_historyOf]

end Makes

/-- **Delta and store agree.** Whatever cycles, resolving and cleaning up have gone before and whatever
its clock shows, a cycle that ends well finds added what it accepted and was not active, removed what
was active and it did not accept, and unchanged what is both; what is active afterwards is what was and
what it accepted; it inserts a row for each accepted fingerprint that had none; what is added and not
inserted are the rows that were resolved and are active again; its counts are those of the accepted
violations and of the batch; its number is that of no check before; and its history, one row for each
fingerprint of the three lists, is all that there is under that number. -/
theorem delta_agrees {e : Engine} {clock : Clock} {target : Option String} {s : Store} {c : Cycle}
    (run : CycleRun s) (sized : ∀ k, e.keeping = some k → 0 < k.batchSize)
    (ended : (e.cycle clock target s).1 = .ok c) :
    (c.delta.added.toFinset = c.accepted \ s.activePrints ∧
      c.delta.removed.toFinset = s.activePrints \ c.accepted ∧
      c.delta.unchanged.toFinset = c.accepted ∩ s.activePrints) ∧
    (e.cycle clock target s).2.2.activePrints = s.activePrints ∪ c.accepted ∧
    c.stored.inserted = (c.accepted \ s.prints).card ∧
    c.delta.added.length =
      c.stored.inserted + (reopened c.accepted s (e.cycle clock target s).2.2).length ∧
    c.stored.inserted + c.stored.updated = c.analysis.violations.countP Violation.isAccepted ∧
    c.stored.inserted + c.stored.updated + c.stored.errors.length = c.analysis.violations.length ∧
    c.check ∉ s.checkIds ∧ s.historyUnder c.check = [] ∧
    ((e.cycle clock target s).2.2.historyUnder c.check).map (fun r => (r.action, r.fingerprint))
      = c.delta.entries ∧
    (c.delta.entries.map Prod.snd).Nodup := by
  have tracked := run.tracked
  have makes := cycle_makes tracked sized ended
  exact ⟨makes.delta_eq, makes.activePrints_eq, makes.inserted_eq tracked, makes.added_eq tracked,
    makes.accepted, makes.total, makes.number, (makes.historyUnder_eq tracked).1,
    (makes.historyUnder_eq tracked).2, makes.nodup_delta tracked⟩

/-- an engine with a store and one analyzer that finds the same in every run -/
def probing (vs : List Violation) : Engine :=
  ⟨{}, ⟨⟨.root, ["p"]⟩, .empty⟩, some {}, [⟨"probe", .custom, .default, .outside (.finds vs) none⟩]⟩

/-- a store in which a violation was found by one cycle and then resolved -/
def onceFound : Store :=
  let s := ((probing [sample]).cycle (.still ⟨1⟩) none .empty).2.2
  (handle {} ⟨2⟩ s (.resolve (printsOf s.rowsOf))).2

theorem sized_probing {vs : List Violation} :
    ∀ k, (probing vs).keeping = some k → 0 < k.batchSize := by
  rintro k ⟨⟩
  decide

theorem onceFound_run : CycleRun onceFound := .resolve _ _ _ (.cycle _ _ _ .empty)

theorem delta_agrees_reopened :
    ∃ c, ((probing [sample]).cycle (.still ⟨3⟩) none onceFound).1 = .ok c ∧
      c.delta.added.length = 1 ∧ c.stored.inserted = 0 ∧
      (reopened c.accepted onceFound ((probing [sample]).cycle (.still ⟨3⟩) none onceFound).2.2).length
        = 1 := by
  have endsWell : ((probing [sample]).cycle (.still ⟨3⟩) none onceFound).1.isOk = true := by decide +kernel
  obtain ⟨c, ended⟩ := exists_eq_ok.mpr endsWell
  have shown : (((probing [sample]).cycle (.still ⟨3⟩) none onceFound).1.toOption.map fun c =>
      (c.delta.added.length, c.stored.inserted)) = some (1, 0) := by
    decide +kernel
  rw [ended] at shown
  obtain ⟨added, inserted⟩ := Prod.ext_iff.mp (Option.some.inj shown)
  have agrees := (delta_agrees onceFound_run sized_probing ended).2.2.2.1
  dsimp only at added inserted
  exact ⟨c, ended, added, inserted, by omega⟩

end Engine

end LintLedger
