import LintLedger.Proofs.Store.ClosedForm
import LintLedger.Proofs.Store.Lifecycle
import LintLedger.Proofs.Violation.Classes
import Mathlib

/-!
# Rows that tell their own fingerprints

A row is made of a violation, but not of all of it: an empty message gives way to the code, and classes
are written by their names.  Read back, it is another violation, and still one without problems and of
the fingerprint under which the row is kept (`ViolationRow.TellsItself`), as long as the rule of the
violation was a text or absent.  Later requests may see a row again or resolve it, which leaves alone all
that it is read back from, so every row of every store that comes about tells itself (`rows_rederived`).
-/

namespace LintLedger

open Outcome

/-! ### Reading a row back -/

/-- a row read back as a violation -/
def ViolationRow.violation (r : ViolationRow) : Violation where
  file := .text r.file
  line := .int r.line
  code := .text r.code
  category := .ofValue Category.ofName? (.text r.category)
  severity := .ofValue Severity.ofName? (.text r.severity)
  source := .ofValue Source.ofName? (.text r.source)
  column := .ofInt? r.column
  rule := .ofText? r.rule
  message := .text r.message
  fix := .ofText? r.fix

/-- whether a row, read back, has no problems and the fingerprint under which it is kept -/
structure ViolationRow.TellsItself (r : ViolationRow) : Prop where
  clean : r.violation.problems = .ok []
  print : r.violation.fingerprint = .ok r.fingerprint

namespace Violation

variable {v : Violation} {fix : Value}

/-- a violation as it is written: the code stands where there is no message, and the advice does not matter -/
def worded (v : Violation) (fix : Value) : Violation := { v with message := v.wording, fix := fix }

theorem wording_worded : (v.worded fix).wording = v.wording := by
  unfold worded wording
  dsimp only
  by_cases truthy : v.message.truthy = true
  · rw [if_pos truthy, if_pos truthy]
  · rw [if_neg truthy, ite_self]

theorem problems_worded : (v.worded fix).problems = v.problems := by
  have wording : (v.worded fix).wording = v.wording := wording_worded
  unfold problems
  rw [wording]
  rfl

/-- the wording of a violation without problems is a text if its message can stand for a part -/
theorem exists_wording (clean : v.problems = .ok []) (part : v.message.IsPart) :
    ∃ s, v.wording = .text s := by
  unfold wording
  split
  · rename_i truthy
    exact part truthy
  · exact (exists_of_problems_eq_nil clean).2.2.2.1

/-- the code stands for an absent message in the fingerprint as it does in the row -/
theorem fingerprint_worded (clean : v.problems = .ok []) : (v.worded fix).fingerprint = v.fingerprint := by
  obtain ⟨code, hcode⟩ := (exists_of_problems_eq_nil clean).2.2.2.1
  have message : partOr 2 v.wording v.code.display = partOr 2 v.message v.code.display := by
    unfold wording
    split
    · rfl
    · rename_i falsy
      rw [hcode]
      unfold partOr
      rw [if_neg falsy]
      split <;> rfl
  have parts : (v.worded fix).identityParts = v.identityParts := by
    rw [identityParts_eq, identityParts_eq, ← message]
    rfl
  unfold fingerprint identityText
  rw [parts]

end Violation

namespace Store

variable {v : Violation} {now : Instant} {f : String} {r : ViolationRow}

theorem ofText?_of_textColumn? {action : StoreAction} {w : Value} (texts : w.IsTrimmable) :
    ∃ s, textColumn? action w = .ok s ∧ Value.ofText? s = w := by
  cases w with
  | null => exact ⟨none, rfl, rfl⟩
  | text s => exact ⟨some s, rfl, rfl⟩
  | _ => exact texts.elim

/-- a row that is made of a violation is read back as that violation, worded -/
theorem violation_of_newRow (clean : v.problems = .ok []) (part : v.message.IsPart)
    (rule : v.rule.IsTrimmable) (h : newRow now f v = .ok r) :
    r.fingerprint = f ∧ ∃ fix, r.violation = v.worded fix := by
  have enterable := (exists_newRow_eq_ok_iff clean part).mp ⟨r, h⟩
  obtain ⟨wording, hwording⟩ := Violation.exists_wording clean part
  obtain ⟨⟨file, hfile⟩, ⟨line, hline⟩, hcolumn, ⟨code, hcode⟩, ⟨category, hcategory⟩,
    ⟨severity, hseverity⟩, ⟨source, hsource⟩⟩ := Violation.exists_of_problems_eq_nil clean
  obtain ⟨column, column', sameColumn⟩ : ∃ c, countColumn? .storeViolations v.column = .ok c ∧
      Value.ofInt? c = v.column := by
    rcases hcolumn with absent | ⟨i, hi⟩
    · exact ⟨none, by rw [absent]; rfl, absent.symm⟩
    · exact ⟨some i, by rw [hi, countColumn?_of_fits (enterable.column i hi)], hi.symm⟩
  obtain ⟨rule, rule', sameRule⟩ : ∃ s, textColumn? .storeViolations v.rule = .ok s ∧
      Value.ofText? s = v.rule := ofText?_of_textColumn? rule
  obtain ⟨fix, fix'⟩ : ∃ s, textColumn? .storeViolations v.fix = .ok s :=
    exists_textColumn?_eq_ok_iff.mpr enterable.fix
  unfold newRow Violation.categoryValue Violation.severityValue Violation.sourceValue at h
  dsimp only at h
  rw [hfile, hline, hwording, hcode, hcategory, hseverity, hsource,
    countColumn_of_fits (enterable.line line hline), column', rule', fix'] at h
  cases h
  refine ⟨rfl, .ofText? fix, ?_⟩
  unfold ViolationRow.violation Violation.worded
  dsimp only
  rw [hwording, sameColumn, sameRule, Label.ofValue_category, Label.ofValue_severity,
    Label.ofValue_source, ← hfile, ← hline, ← hcode, ← hcategory, ← hseverity, ← hsource]

/-- a row that is made of a violation under its own fingerprint tells itself -/
theorem tellsItself_of_newRow (clean : v.problems = .ok []) (print : v.fingerprint = .ok f)
    (rule : v.rule.IsTrimmable) (h : newRow now f v = .ok r) : r.TellsItself := by
  have part := (Violation.exists_fingerprint_eq_ok_iff.mp ⟨f, print⟩).1
  obtain ⟨rfl, fix, back⟩ := violation_of_newRow clean part rule h
  refine ⟨?_, ?_⟩
  · rw [back, Violation.problems_worded, clean]
  · rw [back, Violation.fingerprint_worded clean, print]

/-! ### What rows come from -/

section Origin

variable {P : ViolationRow → Prop} {rows rows' : List ViolationRow}

/-- what holds of the new rows of a batch so far and of all that are still to be made holds of all of them -/
theorem forall_inserted {batch : List (String × Violation)} {p q : Pending}
    (made : ∀ item ∈ batch, ∀ r, newRow now item.1 item.2 = .ok r → P r) (before : ∀ r ∈ q.inserted, P r)
    (run : batch.foldlM (pend rows now) q = .ok p) : ∀ r ∈ p.inserted, P r := by
  induction batch generalizing q with
  | nil =>
    cases run
    exact before
  | cons item rest ih =>
    rw [List.foldlM_cons] at run
    obtain ⟨mid, step, run⟩ := bind_eq_ok.mp run
    refine ih (fun other hother => made other (List.mem_cons_of_mem item hother)) ?_ run
    unfold pend at step
    split at step
    · cases step
      exact before
    · obtain ⟨row, one, rfl⟩ := map_eq_ok.mp step
      intro r hr
      rcases List.mem_append.mp hr with hr | hr
      · exact before r hr
      · rw [List.mem_singleton.mp hr]
        exact made item List.mem_cons_self row one

/-- what holds of rows and does not go when they are seen again holds once a batch has been written, if it
holds of the rows that are made of the batch -/
theorem forall_storeBatch {batch : List (String × Violation)} {p : Pending}
    (seen : ∀ r, P r → P (r.seen now))
    (made : ∀ item ∈ batch, ∀ r, newRow now item.1 item.2 = .ok r → P r) (start : ∀ r ∈ rows, P r)
    (h : storeBatch now rows batch = .ok (rows', p)) : ∀ r ∈ rows', P r := by
  obtain ⟨q, run, h⟩ := bind_eq_ok.mp h
  cases h
  have inserted := forall_inserted made (fun r hr => absurd hr List.not_mem_nil) run
  intro t ht
  obtain ⟨r, hr, rfl⟩ := List.mem_map.mp ht
  have before : P r := (List.mem_append.mp hr).elim (start r) (inserted r)
  split
  · exact seen r before
  · exact before

/-- the same of batches written one after another, however many of them are -/
theorem forall_storeBatches {clock : Clock} {result : StoreResult}
    {batches : List (List (String × Violation))} (seen : ∀ now r, P r → P (r.seen now))
    (made : ∀ item ∈ batches.flatten, ∀ now r, newRow now item.1 item.2 = .ok r → P r)
    (start : ∀ r ∈ rows, P r) : ∀ r ∈ (storeBatches clock result batches rows).2.1, P r := by
  induction batches generalizing clock result rows with
  | nil => exact start
  | cons batch rest ih =>
    unfold storeBatches
    cases stored : storeBatch (clock 0) rows batch with
    | error f => exact start
    | ok out =>
      obtain ⟨mid, p⟩ := out
      refine ih (fun item hitem => made item ?_) (forall_storeBatch (seen (clock 0)) ?_ start stored)
      · rw [List.flatten_cons]
        exact List.mem_append_right batch hitem
      · intro item hitem
        refine made item ?_ (clock 0)
        rw [List.flatten_cons]
        exact List.mem_append_left _ hitem

end Origin

/-! ### Requests on violations whose rules are texts -/

/-- whether the rules of the violations that a request brings are texts or absent -/
def Request.NamesRules : Request → Prop
  | .store vs => ∀ v ∈ vs, v.rule.IsTrimmable
  | _ => True

/-- the stores that come about from an empty one, by whatever clocks, when rules are texts or absent -/
inductive Written : Store → Prop
  | empty : Written .empty
  | step {s t : Store} {k : StoreSettings} {clock : Clock} {request : Request} (before : Written s)
      (named : request.NamesRules) (step : Step k clock s request t) : Written t

variable {k : StoreSettings} {clock : Clock} {s t : Store} {request : Request} {rows : List ViolationRow}
  {vs : List Violation}

/-- a request that stores no violations reads the clock once at most -/
theorem Step.still (step : Step k clock s request t) (other : ∀ vs, request ≠ .store vs) :
    Step k (.still (clock 0)) s request t := by
  cases step with
  | undone => exact .undone request
  | cutShort n vs => exact absurd rfl (other vs)
  | answered =>
    have same : respond k clock s request = respond k (.still (clock 0)) s request := by
      cases request with
      | store vs => exact absurd rfl (other vs)
      | _ => rfl
    rw [same]
    exact .answered request

/-- batches of screened violations leave rows that tell themselves -/
theorem tellItself_of_screen {index n : Nat} {result : StoreResult} {valid : List (String × Violation)}
    {errors : List String} (named : ∀ v ∈ vs, v.rule.IsTrimmable) (each : ∀ r ∈ rows, r.TellsItself)
    (screened : screen index vs = .ok (valid, errors)) :
    ∀ r ∈ (storeBatches clock result ((batches k.batchSize valid).take n) rows).2.1, r.TellsItself := by
  refine forall_storeBatches (fun now r tells => ⟨tells.clean, tells.print⟩) ?_ each
  intro item hitem now r made
  obtain ⟨hv, clean, print⟩ := clean_of_mem_screen screened (mem_of_mem_take_batches hitem)
  exact tellsItself_of_newRow clean print (named _ hv) made

/-- violations that are stored, to the end or not, leave rows that tell themselves -/
theorem Step.tellItself_of_store (step : Step k clock s (.store vs) t)
    (named : ∀ v ∈ vs, v.rule.IsTrimmable) (known : s.violations = some rows)
    (each : ∀ r ∈ rows, r.TellsItself) : ∃ rows', t.violations = some rows' ∧ ∀ r ∈ rows', r.TellsItself := by
  cases step with
  | undone => exact ⟨rows, known, each⟩
  | cutShort n vs =>
    unfold interrupted
    rw [known]
    split
    · rename_i valid errors _ screened same
      cases same
      exact ⟨_, rfl, tellItself_of_screen named each screened⟩
    · exact ⟨rows, known, each⟩
  | answered =>
    change ∃ rows', (storeViolations k clock vs s).2.1.violations = some rows' ∧ _
    cases screened : screen 0 vs with
    | error fault =>
      have left : (storeViolations k clock vs s).2.1 = s := by
        unfold storeViolations
        rw [screened]
      rw [left]
      exact ⟨rows, known, each⟩
    | ok out =>
      obtain ⟨valid, errors⟩ := out
      rw [storeViolations_of_screen known screened]
      have told : ∀ r ∈ (storeBatches clock ⟨0, 0, errors⟩ ((batches k.batchSize valid).take
          (batches k.batchSize valid).length) rows).2.1, r.TellsItself :=
        tellItself_of_screen named each screened
      rw [List.take_length] at told
      exact ⟨_, rfl, told⟩

/-- rows that tell themselves do so after every request -/
theorem Step.tellItself (step : Step k clock s request t) (named : request.NamesRules)
    (known : s.violations = some rows) (each : ∀ r ∈ rows, r.TellsItself) :
    ∃ rows', t.violations = some rows' ∧ ∀ r ∈ rows', r.TellsItself := by
  by_cases stores : ∃ vs, request = .store vs
  · obtain ⟨vs, rfl⟩ := stores
    exact step.tellItself_of_store named known each
  obtain ⟨rows', left, effect⟩ :=
    (step.still fun vs same => stores ⟨vs, same⟩).exists_effect (.still (clock 0)) known
  refine ⟨rows', left, ?_⟩
  cases request with
  | store vs => exact absurd ⟨vs, rfl⟩ stores
  | resolve prints =>
    rcases effect with rfl | ⟨now, -, -, rfl⟩
    · exact each
    · intro t ht
      obtain ⟨r, hr, rfl⟩ := List.mem_map.mp ht
      unfold ViolationRow.resolve
      split
      · exact ⟨(each r hr).clean, (each r hr).print⟩
      · exact each r hr
  | cleanup days =>
    rcases effect with rfl | ⟨limit, rfl⟩
    · exact each
    · exact fun r hr => each r (List.mem_of_mem_filter hr)
  | _ =>
    cases effect
    exact each

/-- **Rows tell their own fingerprints.** Whatever a store is asked for, one request after another by any
clocks, answered, undone or cut short, as long as the rules of the violations that it is given are texts or
absent: each of its rows, read back as a violation, has no problems, and its fingerprint is the one under
which the row is kept.  Nothing is asked of messages, since a violation whose message is no text and
counts for something has no fingerprint, nor of numbers, since none is written that does not fit. -/
theorem rows_rederived (h : Written s) : ∃ rows, s.violations = some rows ∧
    ∀ r ∈ rows, r.violation.problems = .ok [] ∧ r.violation.fingerprint = .ok r.fingerprint := by
  have told : ∃ rows, s.violations = some rows ∧ ∀ r ∈ rows, r.TellsItself := by
    induction h with
    | empty => exact ⟨[], rfl, fun r hr => absurd hr List.not_mem_nil⟩
    | step _ named step ih =>
      obtain ⟨rows, known, each⟩ := ih
      exact step.tellItself named known each
  obtain ⟨rows, known, each⟩ := told
  exact ⟨rows, known, fun r hr => ⟨(each r hr).clean, (each r hr).print⟩⟩

/-- a store in which one violation has an empty rule and no message, and another was resolved -/
def mixedStore : Store :=
  (respond {} (.still ⟨3⟩) settledStore (.store [{ sample with rule := .text "", line := .int 2 }])).2

theorem mixedStore_written : Written mixedStore :=
  .step (.step (.step .empty (by simp [Request.NamesRules, sample, Value.IsTrimmable]) (.answered _))
    (by simp [Request.NamesRules]) (.answered _))
    (by simp [Request.NamesRules, Value.IsTrimmable]) (.answered _)

theorem rows_rederived_mixed :
    Written mixedStore ∧ ∃ rows, mixedStore.violations = some rows ∧
      rows.map (fun r => (r.line, r.message, r.rule, r.status)) =
        [(1, "x", none, .resolved), (2, "x", some "", .active)] ∧
      ∀ r ∈ rows, r.violation.fingerprint = .ok r.fingerprint := by
  obtain ⟨rows, known, each⟩ := rows_rederived mixedStore_written
  refine ⟨mixedStore_written, rows, known, ?_, fun r hr => (each r hr).2⟩
  have shown : mixedStore.violations.map
      (·.map fun r => (r.line, r.message, r.rule, r.status)) =
        some [(1, "x", none, .resolved), (2, "x", some "", .active)] := by
    decide +kernel
  rw [known] at shown
  exact Option.some.inj shown

end Store

end LintLedger
