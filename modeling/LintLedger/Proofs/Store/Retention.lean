import LintLedger.Proofs.Outcome
import LintLedger.Store.Cleanup
import Mathlib

/-!
# How far back old data are kept

Old data lie behind a limit, some whole days before the moment at which they are removed, or behind it if they
are counted forward (`before_eq_ok_iff`).  The calendar has such a limit just if it goes back that far
(`exists_before_iff`).  Where it does not, the removal fails, over
something that is none of the store's failures; where it does, only the store can fail (`exists_cleanup_fails_iff`).
-/

namespace LintLedger

open Outcome

namespace Instant

variable {now t : Instant} {f : Failure}

/-- whether fewer days than these lie between the first midnight of the calendar and a moment -/
def LacksDays (now : Instant) (days : Nat) : Prop := now.micros < days * dayLength

instance {days : Nat} : Decidable (now.LacksDays days) := Nat.decLt _ _

/-- whether a moment of the calendar lies a whole number of days before another, and so behind it if the
number is negative -/
structure IsDaysBefore (t : Instant) (days : Int) (now : Instant) : Prop where
  calendar : t.micros < limit
  distance : (t.micros : Int) + days * dayLength = now.micros

theorem daysLength_int (days : Int) : daysLength (.int days) = .ok (days * dayLength) := rfl

/-- a number of days before a moment, with the three ways in which there is no such moment -/
theorem before_int (now : Instant) (days : Int) : now.before (.int days) =
    if days < -(Decimal.twoTo 31 : Int) ∨ Decimal.twoTo 31 ≤ days then .error (.beyondDays days)
    else if days < -mostDays ∨ mostDays < days then .error (.tooManyDays days)
    else match now.shift? (-(days * dayLength)) with
      | some t => .ok t
      | none => .error .beyondCalendar := by
  have stopped {α β : Type} (e : Failure) (g : α → Except Failure β) : (throw e >>= g) = .error e := rfl
  have whole : (days * (dayLength : Int)).fdiv dayLength = days := Int.mul_fdiv_cancel _ (by simp [dayLength])
  unfold before
  rw [daysLength_int, ok_bind]
  simp only [whole, Bool.or_eq_true, decide_eq_true_eq, stopped]
  split
  · rfl
  · split
    · rfl
    · cases now.shift? (-(days * dayLength)) <;> rfl

theorem kind_of_before {days : Int} (h : now.before (.int days) = .error f) : f.kind = .overflow := by
  rw [before_int] at h
  split at h
  · cases h
    rfl
  · split at h
    · cases h
      rfl
    · split at h
      · cases h
      · cases h
        rfl

theorem shift?_eq_some_iff {delta : Int} :
    now.shift? delta = some t ↔ t.micros < limit ∧ (t.micros : Int) = now.micros + delta := by
  unfold shift?
  dsimp only
  split
  · rename_i inside
    rw [Option.some.injEq]
    constructor
    · rintro rfl
      dsimp only
      omega
    · rintro ⟨-, distance⟩
      refine congrArg mk ?_
      omega
  · exact iff_of_false nofun fun ⟨calendar, distance⟩ => by omega

/-- a number of days before a moment of the calendar there is just the moment that lies so far away, if the
calendar has it -/
theorem before_eq_ok_iff {days : Int} (calendar : now.micros < limit) :
    now.before (.int days) = .ok t ↔ t.IsDaysBefore days now := by
  have years : limit = 3652059 * dayLength := by decide
  have day : dayLength = 86400000000 := rfl
  have longest : Decimal.twoTo 31 = 2147483648 := by decide
  have shifted : now.shift? (-(days * dayLength)) = some t ↔ t.IsDaysBefore days now := by
    rw [shift?_eq_some_iff]
    constructor
    · rintro ⟨inside, distance⟩
      exact ⟨inside, by omega⟩
    · rintro ⟨inside, distance⟩
      exact ⟨inside, by omega⟩
  rw [before_int, ← shifted]
  constructor
  · intro h
    split at h
    · cases h
    · split at h
      · cases h
      · split at h
        · cases h
          assumption
        · cases h
  · intro h
    -- between two moments of the calendar there are not so many days that they could not be counted
    obtain ⟨inside, distance⟩ := shifted.mp h
    rw [day] at distance
    rw [if_neg (by omega), if_neg (by unfold mostDays; omega), h]

/-- a number of days before a moment of the calendar lies in it too, if there are as many behind it -/
theorem exists_before_iff {days : Nat} (calendar : now.micros < limit) :
    (∃ t, now.before (.int days) = .ok t) ↔ ¬now.LacksDays days := by
  simp only [before_eq_ok_iff calendar]
  unfold LacksDays
  constructor
  · rintro ⟨t, -, distance⟩
    omega
  · intro enough
    exact ⟨⟨now.micros - days * dayLength⟩, by dsimp only; omega, by dsimp only; omega⟩

end Instant

namespace Store

variable {k : StoreSettings} {now : Instant} {s : Store} {f : Failure}

theorem cleanup_of_beyond (h : now.before (.int k.historyDays) = .error f) :
    Store.cleanup k now none s = .error f :=
  bind_eq_error.mpr (.inl h)

/-- beyond its limit, the removal of old data can only fail over a table that is gone -/
theorem cleanup_eq_error (h : Store.cleanup k now none s = .error f) :
    now.before (.int k.historyDays) = .error f ∨ f = .store .cleanup := by
  have gone {α : Type} {table : Table α} (h : need .cleanup table = .error f) : f = .store .cleanup := by
    cases table with
    | none =>
      cases h
      rfl
    | some rows => cases h
  rcases bind_eq_error.mp h with h | ⟨limit, -, h⟩
  · exact .inl h
  rcases bind_eq_error.mp h with h | ⟨history, -, h⟩
  · exact .inr (gone h)
  rcases bind_eq_error.mp h with h | ⟨violations, -, h⟩
  · exact .inr (gone h)
  rcases bind_eq_error.mp h with h | ⟨metrics, -, h⟩
  · exact .inr (gone h)
  · cases h

/-- the removal of old data fails over something else than the store just if the calendar does not go back as
far as they are kept -/
theorem exists_cleanup_fails_iff {days : Nat} (own : k.historyDays = days) (calendar : now.micros < Instant.limit) :
    (∃ f, Store.cleanup k now none s = .error f ∧ f.kind ≠ .storage) ↔ now.LacksDays days := by
  rw [← not_iff_not, ← Instant.exists_before_iff calendar]
  constructor
  · intro passed
    cases limit : now.before (.int days) with
    | ok t => exact ⟨t, rfl⟩
    | error f =>
      refine absurd ⟨f, cleanup_of_beyond (own ▸ limit), ?_⟩ passed
      rw [Instant.kind_of_before limit]
      decide
  · rintro ⟨t, limit⟩ ⟨f, failed, foreign⟩
    rcases cleanup_eq_error failed with h | rfl
    · rw [own, limit] at h
      cases h
    · exact foreign rfl

end Store

end LintLedger
