import LintLedger.Proofs.Outcome
import LintLedger.Settings
import Mathlib

/-!
# The bounds that settings keep

Settings are taken only if each of them is: a group of settings that is read without complaint holds, field by
field, what the reader of the field has taken or the default (`readField_keeps`).  So every count among the
settings that are taken is at least one (`isCounted_of_read`), as the defaults are.
-/

namespace LintLedger.Settings

open Outcome

variable {α β : Type} {es : List (Value × Value)} {place : List Value} {name : String}

/-! ### Reading one field after another -/

theorem andAlso_eq_ok {f : Checked (α → β)} {a : Checked α} {b : β} :
    andAlso f a = .ok b ↔ ∃ g x, f = .ok g ∧ a = .ok x ∧ g x = b := by
  cases f with
  | error fs => cases a <;> simp [andAlso, both, Except.map]
  | ok g => cases a <;> simp [andAlso, both, Except.map]

/-- what the default and everything that is taken have in common holds of a field -/
theorem readField_keeps {read : List Value → Value → Checked α} {default x : α} {P : α → Prop}
    (h : readField es place name default read = .ok x) (base : P default)
    (taken : ∀ place v x, read place v = .ok x → P x) : P x := by
  unfold readField at h
  split at h
  · exact taken _ _ _ h
  · cases h
    exact base

theorem exists_of_readGroup {read : List Value → List (Value × Value) → Checked α} {v : Value} {x : α}
    (h : readGroup name read place v = .ok x) : ∃ es, read place es = .ok x := by
  cases v with
  | map es => exact ⟨es, h⟩
  | _ => cases h

theorem le_of_readNatFrom {least n : Nat} {v : Value} (h : readNatFrom least place v = .ok n) :
    least ≤ n := by
  unfold readNatFrom at h
  split at h
  · cases h
  · split at h
    · cases h
      omega
    · cases h

/-- a count that may not be less than one -/
theorem pos_of_readField {default n : Nat} (h : readField es place name default (readNatFrom 1) = .ok n)
    (base : 0 < default) : 0 < n :=
  readField_keeps h base fun _ _ _ taken => le_of_readNatFrom taken

/-- a group keeps what its default keeps and its reader sees to -/
theorem readField_readGroup_keeps {group : String} {read : List Value → List (Value × Value) → Checked α}
    {default x : α} {P : α → Prop} (h : readField es place name default (readGroup group read) = .ok x)
    (base : P default) (taken : ∀ place es x, read place es = .ok x → P x) : P x := by
  refine readField_keeps h base fun inner v x hx => ?_
  obtain ⟨fields, hx⟩ := exists_of_readGroup hx
  exact taken inner fields x hx

/-! ### All settings -/

/-- settings all of whose counts are at least one -/
structure IsCounted (s : Settings) : Prop where
  files : 0 < s.topFiles
  threshold : 0 < s.scheduler.zeroThreshold
  interval : 0 < s.scheduler.reducedInterval
  batch : 0 < s.database.batchSize
  history : 0 < s.database.maxHistoryDays
  cleanup : 0 < s.watch.cleanupEvery

theorem isCounted_default : IsCounted {} := by
  constructor <;> decide

theorem pos_of_readScheduler {s : SchedulerSettings} (h : readScheduler place es = .ok s) :
    0 < s.zeroThreshold ∧ 0 < s.reducedInterval := by
  obtain ⟨_, interval, h₁, hinterval, rfl⟩ := andAlso_eq_ok.mp h
  obtain ⟨_, threshold, h₂, hthreshold, rfl⟩ := andAlso_eq_ok.mp h₁
  cases h₂
  exact ⟨pos_of_readField hthreshold (by decide), pos_of_readField hinterval (by decide)⟩

theorem pos_of_readDatabase {d : DatabaseSettings} (h : readDatabase place es = .ok d) :
    0 < d.batchSize ∧ 0 < d.maxHistoryDays := by
  obtain ⟨_, metrics, h₁, -, rfl⟩ := andAlso_eq_ok.mp h
  obtain ⟨_, days, h₂, hdays, rfl⟩ := andAlso_eq_ok.mp h₁
  obtain ⟨_, batch, h₃, hbatch, rfl⟩ := andAlso_eq_ok.mp h₂
  obtain ⟨_, path, h₄, -, rfl⟩ := andAlso_eq_ok.mp h₃
  cases h₄
  exact ⟨pos_of_readField hbatch (by decide), pos_of_readField hdays (by decide)⟩

theorem pos_of_readWatch {w : WatchSettings} (h : readWatch place es = .ok w) : 0 < w.cleanupEvery := by
  obtain ⟨_, every, h₁, hevery, rfl⟩ := andAlso_eq_ok.mp h
  obtain ⟨_, auto, h₂, -, rfl⟩ := andAlso_eq_ok.mp h₁
  obtain ⟨_, debounce, h₃, -, rfl⟩ := andAlso_eq_ok.mp h₂
  obtain ⟨_, interval, h₄, -, rfl⟩ := andAlso_eq_ok.mp h₃
  cases h₄
  exact pos_of_readField hevery (by decide)

/-- **No count of the settings that are taken is zero.** -/
theorem isCounted_of_read {s : Settings} (h : Settings.read es = .ok s) : s.IsCounted := by
  obtain ⟨_, watch, h₁, hwatch, rfl⟩ := andAlso_eq_ok.mp h
  obtain ⟨_, database, h₂, hdatabase, rfl⟩ := andAlso_eq_ok.mp h₁
  obtain ⟨_, scheduler, h₃, hscheduler, rfl⟩ := andAlso_eq_ok.mp h₂
  obtain ⟨_, crossover, h₄, -, rfl⟩ := andAlso_eq_ok.mp h₃
  obtain ⟨_, deduplication, h₅, -, rfl⟩ := andAlso_eq_ok.mp h₄
  obtain ⟨_, engines, h₆, -, rfl⟩ := andAlso_eq_ok.mp h₅
  obtain ⟨_, files, h₇, hfiles, rfl⟩ := andAlso_eq_ok.mp h₆
  obtain ⟨_, target, h₈, -, rfl⟩ := andAlso_eq_ok.mp h₇
  cases h₈
  have base := isCounted_default
  have scheduled := readField_readGroup_keeps (P := fun s => 0 < s.zeroThreshold ∧ 0 < s.reducedInterval)
    hscheduler ⟨base.threshold, base.interval⟩ fun _ _ _ => pos_of_readScheduler
  have stored := readField_readGroup_keeps (P := fun d => 0 < d.batchSize ∧ 0 < d.maxHistoryDays)
    hdatabase ⟨base.batch, base.history⟩ fun _ _ _ => pos_of_readDatabase
  have watched := readField_readGroup_keeps (P := fun w => 0 < w.cleanupEvery)
    hwatch base.cleanup fun _ _ _ => pos_of_readWatch
  exact ⟨pos_of_readField hfiles base.files, scheduled.1, scheduled.2, stored.1, stored.2, watched⟩

end LintLedger.Settings
