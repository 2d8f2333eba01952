import LintLedger.Store.Violations

/-!
# Checks

A check is written down when it begins, and again when it ends, well or not.  The end of a check that
is not known changes nothing.
-/

namespace LintLedger.Store

/-- a check that begins, and its number -/
def startCheck (now : Instant) (rule engine : Value) (s : Store) :
    Except Failure (Int × Store) := do
  let action := StoreAction.startCheck
  let rows ← need action s.checks
  let rule ← textColumn action rule
  let engine ← textColumn action engine
  let id := nextId CheckRow.id rows
  let row : CheckRow := ⟨id, rule, engine, .running, now, none, 0, 0, none⟩
  return (id, { s with checks := some (rows ++ [row]) })

/-- the store with the check of a number changed; the new row is found only if the check is known -/
def changeCheck (action : StoreAction) (check : Int)
    (change : CheckRow → Except Failure CheckRow) (s : Store) : Except Failure Store := do
  let rows ← need action s.checks
  let check ← wholeColumn check
  let rows ← rows.mapM fun r => if r.id = check then change r else .ok r
  return { s with checks := some rows }

/-- a check that ended well, what it found and how long it took -/
def completeCheck (now : Instant) (check : Int) (found milliseconds : Value) :
    Store → Except Failure Store :=
  changeCheck .completeCheck check fun r => do
    let found ← countColumn .completeCheck found
    let milliseconds ← countColumn .completeCheck milliseconds
    return { r with
      status := .completed
      completedAt := some now
      found := found
      milliseconds := milliseconds }

/-- a check that failed, why it did and how long it took -/
def failCheck (now : Instant) (check : Int) (error milliseconds : Value) :
    Store → Except Failure Store :=
  changeCheck .failCheck check fun r => do
    let milliseconds ← countColumn .failCheck milliseconds
    let error ← textColumn? .failCheck error
    return { r with
      status := .failed
      completedAt := some now
      milliseconds := milliseconds
      error := error }

end LintLedger.Store
