import LintLedger.Engine.Cycle
import LintLedger.Proofs.Outcome
import Mathlib

/-!
# What the store's work fails with

A part of the store's work may fail over a table that is lost, a number that does not fit or a value that
is used as something that it is not.  None of these failures is one over analyzers or over crossover
(`Failure.IsIncidental`).  That is proved along the work itself, by a rule for each way in which parts of
it are put together (`FailsBy`).
-/

namespace LintLedger

namespace Outcome

variable {ε α β : Type} {P : ε → Prop}

/-- whether a piece of work, if it fails, fails with something of a kind -/
def FailsBy (P : ε → Prop) (x : Except ε α) : Prop := ∀ e, x = .error e → P e

namespace FailsBy

theorem ok (a : α) : FailsBy P (.ok a) := nofun

theorem error {e : ε} (h : P e) : FailsBy P (.error e : Except ε α) := by
  rintro _ ⟨⟩
  exact h

theorem bind {x : Except ε α} {f : α → Except ε β} (hx : FailsBy P x) (hf : ∀ a, FailsBy P (f a)) :
    FailsBy P (x >>= f) := by
  intro e h
  rcases bind_eq_error.mp h with first | ⟨a, -, later⟩
  · exact hx e first
  · exact hf a e later

theorem map {x : Except ε α} {f : α → β} (hx : FailsBy P x) : FailsBy P (x.map f) :=
  fun e h => hx e (map_eq_error.mp h)

theorem mapM {f : α → Except ε β} {xs : List α} (hf : ∀ a, FailsBy P (f a)) : FailsBy P (xs.mapM f) := by
  induction xs with
  | nil => exact .ok []
  | cons x rest ih =>
    rw [List.mapM_cons]
    exact .bind (hf x) fun _ => .bind ih fun _ => .ok _

theorem foldlM {f : β → α → Except ε β} {xs : List α} {b : β} (hf : ∀ b a, FailsBy P (f b a)) :
    FailsBy P (xs.foldlM f b) := by
  induction xs generalizing b with
  | nil => exact .ok b
  | cons x rest ih =>
    rw [List.foldlM_cons]
    exact .bind (hf b x) fun _ => ih

end FailsBy

end Outcome

/-- whether a failure is neither one over analyzers nor one over crossover -/
def Failure.IsIncidental (f : Failure) : Prop := f.kind ≠ .analysis ∧ f.kind ≠ .crossover

theorem Failure.IsIncidental.fault (f : Fault) : (Failure.fault f).IsIncidental := by
  unfold IsIncidental kind
  dsimp only
  cases f.group <;> decide

theorem Failure.IsIncidental.store (action : StoreAction) : (Failure.store action).IsIncidental := by
  unfold IsIncidental kind
  dsimp only
  decide

open Outcome

/-- work that fails with nothing but such failures -/
abbrev IsSafe {α : Type} (x : Except Failure α) : Prop := FailsBy Failure.IsIncidental x

theorem isSafe_orFail {α : Type} (x : Except Fault α) : IsSafe (orFail x) := by
  cases x with
  | ok a => exact .ok a
  | error f => exact .error (Failure.IsIncidental.fault f)

namespace Store

variable {now : Instant} {s : Store}

/-! ### Columns -/

theorem isSafe_need {α : Type} (action : StoreAction) (table : Table α) : IsSafe (need action table) := by
  cases table with
  | some rows => exact .ok rows
  | none => exact .error (.store action)

theorem isSafe_wholeColumn (i : Int) : IsSafe (wholeColumn i) := by
  unfold wholeColumn
  split
  · exact .ok i
  · exact .error (by unfold Failure.IsIncidental Failure.kind; decide)

theorem isSafe_textColumn? (action : StoreAction) (v : Value) : IsSafe (textColumn? action v) := by
  cases v with
  | int i => exact .map (isSafe_wholeColumn i)
  | list vs => exact .error (.store action)
  | map es => exact .error (.store action)
  | _ => exact .ok _

theorem isSafe_textColumn (action : StoreAction) (v : Value) : IsSafe (textColumn action v) := by
  refine .bind (isSafe_textColumn? action v) fun written => ?_
  cases written with
  | some s => exact .ok s
  | none => exact .error (.store action)

theorem isSafe_countColumn? (action : StoreAction) (v : Value) : IsSafe (countColumn? action v) := by
  have refused : IsSafe (.error (.store action) : Except Failure (Option Int)) :=
    .error (.store action)
  cases v with
  | null => exact .ok none
  | bool b => exact .ok _
  | int i => exact .map (isSafe_wholeColumn i)
  | float x =>
    unfold countColumn?
    dsimp only
    split
    · split
      · exact .ok _
      · exact refused
    · exact refused
  | text s =>
    unfold countColumn?
    dsimp only
    split
    · exact .map (isSafe_wholeColumn _)
    · exact refused
  | _ => exact refused

theorem isSafe_countColumn (action : StoreAction) (v : Value) : IsSafe (countColumn action v) := by
  refine .bind (isSafe_countColumn? action v) fun written => ?_
  cases written with
  | some i => exact .ok i
  | none => exact .error (.store action)

/-! ### Checks, history, measurements and schedules -/

theorem isSafe_startCheck (rule engine : Value) : IsSafe (startCheck now rule engine s) :=
  .bind (isSafe_need _ _) fun _ => .bind (isSafe_textColumn _ _) fun _ =>
    .bind (isSafe_textColumn _ _) fun _ => .ok _

theorem isSafe_changeCheck {action : StoreAction} {check : Int} {change : CheckRow → Except Failure CheckRow}
    (safe : ∀ r, IsSafe (change r)) : IsSafe (changeCheck action check change s) := by
  refine .bind (isSafe_need _ _) fun _ => .bind (isSafe_wholeColumn check) fun _ => .bind ?_ fun _ => .ok _
  refine .mapM fun r => ?_
  split
  · exact safe r
  · exact .ok r

theorem isSafe_completeCheck (check : Int) (found milliseconds : Value) :
    IsSafe (completeCheck now check found milliseconds s) :=
  isSafe_changeCheck fun _ => .bind (isSafe_countColumn _ _) fun _ =>
    .bind (isSafe_countColumn _ _) fun _ => .ok _

theorem isSafe_failCheck (check : Int) (error milliseconds : Value) :
    IsSafe (failCheck now check error milliseconds s) :=
  isSafe_changeCheck fun _ => .bind (isSafe_countColumn _ _) fun _ =>
    .bind (isSafe_textColumn? _ _) fun _ => .ok _

theorem isSafe_recordDeltas (check : Value) (prints : List String) :
    IsSafe (recordDeltas now check prints s) := by
  refine .bind (isSafe_need _ _) fun rows => ?_
  dsimp only
  split
  · exact .ok _
  · exact .bind (isSafe_need _ _) fun _ => .bind (isSafe_countColumn _ _) fun _ => .ok _

theorem isSafe_recordMetric (k : StoreSettings) (kind value unit context : Value) :
    IsSafe (recordMetric k now kind value unit context s) := by
  unfold recordMetric
  split
  · exact .ok s
  refine .bind (isSafe_orFail _) fun number => .bind (isSafe_need _ _) fun rows =>
    .bind (isSafe_textColumn _ _) fun text => ?_
  dsimp only
  split
  · exact .error (.store _)
  · exact .bind (isSafe_textColumn _ _) fun _ => .ok _

theorem isSafe_saveSchedules (priority : Value) (entries : List ScheduleEntry) :
    IsSafe (saveSchedules priority entries s) := by
  have updates : ∀ rows e, IsSafe (updateSchedule rows e) := fun _ _ =>
    .bind (isSafe_countColumn _ _) fun _ => .bind (isSafe_countColumn _ _) fun _ => .ok _
  have inserts : ∀ rows e, IsSafe (insertSchedule priority rows e) := by
    intro rows e
    refine .bind (isSafe_textColumn _ _) fun _ => .bind (isSafe_textColumn _ _) fun _ =>
      .bind (isSafe_countColumn? _ _) fun _ => .bind (isSafe_countColumn? _ _) fun _ =>
        .bind (isSafe_countColumn? _ _) fun _ => ?_
    dsimp only
    split
    · exact .error (.store _)
    · exact .ok _
  unfold saveSchedules
  split
  · exact .ok s
  · exact .bind (isSafe_need _ _) fun _ => .bind (isSafe_orFail _) fun _ =>
      .bind (.foldlM updates) fun _ => .bind (.foldlM inserts) fun _ => .ok _

/-! ### Violations -/

theorem isSafe_newRow (f : String) (v : Violation) : IsSafe (newRow now f v) :=
  .bind (isSafe_textColumn _ _) fun _ => .bind (isSafe_countColumn _ _) fun _ =>
    .bind (isSafe_countColumn? _ _) fun _ => .bind (isSafe_textColumn _ _) fun _ =>
      .bind (isSafe_textColumn _ _) fun _ => .bind (isSafe_textColumn _ _) fun _ =>
        .bind (isSafe_textColumn _ _) fun _ => .bind (isSafe_textColumn _ _) fun _ =>
          .bind (isSafe_textColumn? _ _) fun _ => .bind (isSafe_textColumn? _ _) fun _ => .ok _

theorem isSafe_storeBatch (rows : List ViolationRow) (batch : List (String × Violation)) :
    IsSafe (storeBatch now rows batch) := by
  refine .bind (.foldlM fun p item => ?_) fun _ => .ok _
  unfold pend
  split
  · exact .ok _
  · exact .map (isSafe_newRow _ _)

theorem isSafe_storeBatches (clock : Clock) (result : StoreResult)
    (batches : List (List (String × Violation))) (rows : List ViolationRow) :
    IsSafe (storeBatches clock result batches rows).1 := by
  induction batches generalizing clock result rows with
  | nil => exact .ok result
  | cons batch rest ih =>
    unfold storeBatches
    cases stored : storeBatch (clock 0) rows batch with
    | error f => exact .error (isSafe_storeBatch rows batch f stored)
    | ok out => exact ih _ _ _

theorem isSafe_storeViolations (k : StoreSettings) (clock : Clock) (vs : List Violation) :
    IsSafe (storeViolations k clock vs s).1 := by
  unfold storeViolations
  split
  · exact .error (.fault _)
  · dsimp only
    split
    · exact .ok _
    · split
      · exact .error (.store _)
      · exact isSafe_storeBatches _ _ _ _

end Store

end LintLedger
