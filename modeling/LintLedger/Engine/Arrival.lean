import LintLedger.Engine

/-!
# Reports as they come in

The analyzers of an analysis run at the same time, and what came of each is taken down when its run ends:
a report or a failure, under the name of the analyzer.  Once all have ended, the reports are taken up by
priority.
-/

namespace LintLedger

/-- what has come in of an analysis -/
structure Arrivals where
  reports : List (String × Report) := []
  failures : List (String × Failure) := []

namespace Arrivals

/-- entries with one more; an entry of the same name gives its place up to it -/
def put {α : Type} (name : String) (a : α) (entries : List (String × α)) : List (String × α) :=
  if entries.any fun entry => entry.1 = name then
    entries.map fun entry => if entry.1 = name then (name, a) else entry
  else entries ++ [(name, a)]

/-- what has come in once one more run has ended -/
def take (i : Arrivals) (r : Engine.Run) : Arrivals :=
  match r.outcome with
  | .ok report => { i with reports := put r.analyzer.name report i.reports }
  | .error f => { i with failures := put r.analyzer.name f i.failures }

/-- what has come in of runs, given in the order in which they ended -/
def of (ended : List Engine.Run) : Arrivals := ended.foldl take {}

end Arrivals

namespace Engine

/-- what runs amount to that ended in some order -/
def arrive (e : Engine) (ended : List Run) : Except Failure Analysis :=
  let i := Arrivals.of ended
  let order := e.ordered.map (·.name)
  e.finish order i.failures (order.filterMap fun name => i.reports.lookup name)

end Engine

end LintLedger
