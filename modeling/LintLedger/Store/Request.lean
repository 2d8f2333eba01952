import LintLedger.Store.Checks
import LintLedger.Store.Cleanup
import LintLedger.Store.Deltas
import LintLedger.Store.Metrics
import LintLedger.Store.Overview
import LintLedger.Store.Schedules

/-!
# Requests to the store

All that can be asked of a store, as one type: the changes first, then the questions.  A change that
fails leaves the store as it was, except that of violations the batches before the failure stay; a
question never changes the store.
-/

namespace LintLedger.Store

/-- what is asked of a store -/
inductive Request where
  | store (violations : List Violation)
  | resolve (fingerprints : List String)
  | recordDeltas (check : Value) (fingerprints : List String)
  | startCheck (rule engine : Value)
  | completeCheck (check : Int) (found milliseconds : Value)
  | failCheck (check : Int) (error milliseconds : Value)
  | saveSchedules (priority : Value) (entries : List ScheduleEntry)
  | recordMetric (kind value unit context : Value)
  | cleanup (days : Option Value)
  | violations (filter : ViolationFilter) (window : Window)
  | history (filter : HistoryFilter) (window : Window)
  | loadSchedules (engine : String)
  | summary
  | performance
  | dashboard (historyLimit : Int)
  | stats

/-- what a store answers -/
inductive Answer where
  | done
  | stored (result : StoreResult)
  | count (n : Nat)
  | delta (check : Value) (delta : Delta)
  | number (id : Int)
  | removed (result : CleanupResult)
  | violations (rows : List ViolationRow)
  | history (rows : List HistoryRow)
  | schedules (kept : List SavedState)
  | summary (items : List SummaryItem)
  | performance (items : List RulePerformance)
  | dashboard (board : Dashboard)
  | stats (stats : StoreStats)

/-- the outcome of a change that is done whole or not at all -/
def whole {α : Type} (s : Store) (answer : α → Answer) :
    Except Failure (α × Store) → Except Failure Answer × Store
  | .ok (a, s) => (.ok (answer a), s)
  | .error f => (.error f, s)

/-- the outcome of a change with nothing to tell -/
def silent (s : Store) (r : Except Failure Store) : Except Failure Answer × Store :=
  whole s (fun _ => .done) (r.map fun s => ((), s))

/-- one request answered; the clock is read once, and again for each batch of violations -/
def respond (k : StoreSettings) (clock : Clock) (s : Store) :
    Request → Except Failure Answer × Store
  | .store vs =>
    let (result, s, _) := storeViolations k clock vs s
    (result.map .stored, s)
  | .resolve prints => whole s .count (resolveViolations (clock 0) prints s)
  | .recordDeltas check prints => whole s (.delta check) (Store.recordDeltas (clock 0) check prints s)
  | .startCheck rule engine => whole s .number (Store.startCheck (clock 0) rule engine s)
  | .completeCheck check found ms => silent s (Store.completeCheck (clock 0) check found ms s)
  | .failCheck check error ms => silent s (Store.failCheck (clock 0) check error ms s)
  | .saveSchedules priority entries => silent s (Store.saveSchedules priority entries s)
  | .recordMetric kind value unit context =>
    silent s (Store.recordMetric k (clock 0) kind value unit context s)
  | .cleanup days => whole s .removed (Store.cleanup k (clock 0) days s)
  | .violations f w => ((getViolations f w s).map .violations, s)
  | .history f w => ((getHistory f w s).map .history, s)
  | .loadSchedules engine => ((Store.loadSchedules engine s).map .schedules, s)
  | .summary => ((getSummary s).map .summary, s)
  | .performance => ((getPerformance s).map .performance, s)
  | .dashboard limit => ((getDashboard limit s).map .dashboard, s)
  | .stats => ((getStats s).map .stats, s)

/-- one request answered at a moment -/
def handle (k : StoreSettings) (now : Instant) (s : Store) (r : Request) :
    Except Failure Answer × Store :=
  respond k (.still now) s r

end LintLedger.Store
