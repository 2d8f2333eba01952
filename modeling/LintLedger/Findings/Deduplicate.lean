import LintLedger.Distinct
import LintLedger.Failure
import LintLedger.Settings
import LintLedger.Violation

/-!
# Thinning out findings

Of the findings that count as the same only the first is kept.  Three ways to count: by file, line,
code and source; by file and line; by file, category and the first fifty characters of the code.
-/

namespace LintLedger.Findings

/-- the strategy that a value names -/
def strategyOf (v : Value) : Except Failure Strategy :=
  match v with
  | .text s => match Strategy.ofName? s with
    | some strategy => .ok strategy
    | none => .error (.unknownStrategy v)
  | _ => .error (.unknownStrategy v)

/-- the number of characters of a code by which codes are alike -/
def codeReach : Nat := 50

/-- the first characters of a code; of a list its first items, which are no key -/
def codeStart : Value → Except Fault Key
  | .text s => .ok (.text (String.ofList (s.toList.take codeReach)))
  | .list _ => .error (.unhashable .list)
  | .map _ => .error .unhashableRange
  | v => .error (.noPositions v.kind)

/-- the key of a class -/
def labelKey {α : Type} (name : α → String) (l : Label α) : Except Fault Key :=
  (l.toValue name).key

/-- the key by which findings count as the same -/
def keyOf (strategy : Strategy) (v : Violation) : Except Fault (List Key) :=
  match strategy with
  | .exact => do
    let file ← v.file.key
    let line ← v.line.key
    let code ← v.code.key
    let source ← labelKey Source.name v.source
    return [file, line, code, source]
  | .location => do
    let file ← v.file.key
    let line ← v.line.key
    return [file, line]
  | .similar =>
    match v.code with
    | .list _ => do
      let _ ← v.file.key
      let _ ← labelKey Category.name v.category
      .error (.unhashable .list)
    | _ => do
      let start ← codeStart v.code
      let file ← v.file.key
      let category ← labelKey Category.name v.category
      return [file, category, start]

/-- the first finding of each key -/
def deduplicate (strategy : Strategy) (violations : List Violation) :
    Except Fault (List Violation) := do
  let keyed ← violations.mapM fun v => do
    let key ← keyOf strategy v
    return (key, v)
  return (distinctBy Prod.fst keyed).map Prod.snd

end LintLedger.Findings
