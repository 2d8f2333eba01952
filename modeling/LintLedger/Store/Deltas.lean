import LintLedger.Distinct
import LintLedger.Store.Violations

/-!
# Changes between checks

What a check found is compared with the violations that are active in the store: what is new, what is
gone and what has stayed.  Each of the three is written down as history.
-/

namespace LintLedger

/-- the fingerprints that came, went and stayed -/
structure Delta where
  added : List String
  removed : List String
  unchanged : List String
deriving Repr, DecidableEq, Inhabited

namespace Delta

/-- the change from some fingerprints to others -/
def between (previous current : List String) : Delta where
  added := current.filter fun f => !previous.contains f
  removed := previous.filter fun f => !current.contains f
  unchanged := current.filter previous.contains

/-- each fingerprint with what is said of it -/
def entries (d : Delta) : List (DeltaAction × String) :=
  d.added.map (DeltaAction.added, ·) ++ d.removed.map (DeltaAction.removed, ·)
    ++ d.unchanged.map (DeltaAction.unchanged, ·)

end Delta

namespace Store

/-- the fingerprints of the active violations in order -/
def activeFingerprints (rows : List ViolationRow) : List String :=
  ((rows.filter (·.isActive)).map (·.fingerprint)).mergeSort fun a b => !(b < a)

/-- the change that a check found, written down under its number -/
def recordDeltas (now : Instant) (check : Value) (fingerprints : List String) (s : Store) :
    Except Failure (Delta × Store) := do
  let action := StoreAction.recordDeltas
  let rows ← need action s.violations
  let delta := Delta.between (activeFingerprints rows) (distinct fingerprints)
  if delta.entries.isEmpty then return (delta, s)
  let history ← need action s.history
  let check ← countColumn action check
  let new := numbered HistoryRow.id history
    (fun id (e : DeltaAction × String) => ⟨id, check, e.2, e.1, now⟩) delta.entries
  return (delta, { s with history := some (history ++ new) })

end Store

end LintLedger
