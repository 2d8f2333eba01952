import LintLedger.Crossover.Warning
import LintLedger.Report
import LintLedger.Settings.Complaint

/-!
# Failures

What can go wrong in the program as a whole.  A failure names its cause; `Failure.message` is its
wording and `Failure.kind` the group that a reader tells it by.
-/

namespace LintLedger

/-- the groups of failures -/
inductive FailureKind where
  | runtime | wrongValue | wrongType | missingAttribute | missingKey | missingIndex | timeout | overflow
  | permission | storage | cancelled | tool | analyzerTimeout | settings | markup | analysis | crossover
deriving Repr, DecidableEq, Inhabited

/-- the name of a group of failures -/
def FailureKind.name : FailureKind → String
  | runtime => "RuntimeError"
  | wrongValue => "ValueError"
  | wrongType => "TypeError"
  | missingAttribute => "AttributeError"
  | missingKey => "KeyError"
  | missingIndex => "IndexError"
  | timeout => "TimeoutError"
  | overflow => "OverflowError"
  | permission => "PermissionError"
  | storage => "StorageError"
  | cancelled => "AnalysisCancelled"
  | tool => "ToolError"
  | analyzerTimeout => "AdapterTimeoutError"
  | settings => "ValidationError"
  | markup => "YAMLError"
  | analysis => "EngineExecutionError"
  | crossover => "CrossoverViolationError"

/-- the groups of failures -/
def FailureKind.all : List FailureKind :=
  [.runtime, .wrongValue, .wrongType, .missingAttribute, .missingKey, .missingIndex, .timeout,
    .overflow, .permission, .storage, .cancelled, .tool, .analyzerTimeout, .settings, .markup, .analysis,
    .crossover]

/-- the group of a name -/
def FailureKind.ofName? (s : String) : Option FailureKind := all.find? fun k => k.name = s

/-- the parts of the store's work -/
inductive StoreAction where
  | storeViolations | resolveViolations | recordDeltas | getViolations | getSummary | getHistory
  | startCheck | completeCheck | failCheck | saveSchedules | loadSchedules | getPerformance
  | getDashboard | recordMetric | cleanup | getStats
deriving Repr, DecidableEq, Inhabited

/-- the name of a part of the store's work -/
def StoreAction.name : StoreAction → String
  | storeViolations => "store_violations"
  | resolveViolations => "resolve_violations"
  | recordDeltas => "record_violation_deltas"
  | getViolations => "get_violations"
  | getSummary => "get_violation_summary"
  | getHistory => "get_violation_history"
  | startCheck => "start_rule_check"
  | completeCheck => "complete_rule_check"
  | failCheck => "fail_rule_check"
  | saveSchedules => "save_rule_schedules"
  | loadSchedules => "load_rule_schedules"
  | getPerformance => "get_rule_performance"
  | getDashboard => "get_dashboard_data"
  | recordMetric => "record_performance_metric"
  | cleanup => "cleanup_old_data"
  | getStats => "get_storage_stats"

/-- what went wrong -/
inductive Failure where
  /-- a value was used as something that it is not -/
  | fault (f : Fault)
  /-- something outside the library failed, in its own words -/
  | foreign (kind : FailureKind) (text : String)
  /-- there is nothing under a key -/
  | missing (key : Value)
  /-- a tool failed -/
  | tool (command stderr : String) (status : Int)
  /-- a run was called off -/
  | cancelled (what : String)
  /-- an analyzer did not end in time -/
  | overdue (engine : String) (seconds : Float)
  /-- a part of the store's work failed -/
  | store (action : StoreAction)
  /-- a whole number is too large for the store -/
  | beyondStore
  /-- a number of days is too large to be counted -/
  | beyondDays (days : Int)
  /-- a number of days is too large for the calendar -/
  | tooManyDays (days : Int)
  /-- a moment lies outside the calendar -/
  | beyondCalendar
  /-- a way of thinning out that does not exist -/
  | unknownStrategy (name : Value)
  /-- a source that does not exist -/
  | unknownSource (name : Value)
  /-- actions that no history row has -/
  | unknownActions (names : List String)
  /-- a batch of no items -/
  | emptyBatch
  /-- a store that writes no items at a time -/
  | emptyStoreBatch
  /-- a schedule that backs off at once -/
  | badBackoff
  /-- a cycle without a store -/
  | noStore
  /-- a tool without a name -/
  | emptyCommand
  /-- a tool that is there but cannot be started -/
  | barred (name : String)
  /-- a path that holds a character that no path can hold -/
  | badPath
  /-- a map with other keys than texts where names are needed -/
  | namelessKey
  /-- settings that cannot be taken -/
  | settings (complaints : List Settings.Complaint)
  /-- a settings file that cannot be read -/
  | markup
  /-- analyzers that may not fail failed, while others settled -/
  | analysis (failures : List (String × Failure)) (settled : List Report)
  /-- the analyzers overlap in a way that is not allowed -/
  | crossover (message : String) (warnings : List Crossover.Warning)
deriving Inhabited

namespace Failure

/-- the group of a failure -/
def kind : Failure → FailureKind
  | fault f => match f.group with
    | .wrongType => .wrongType
    | .wrongValue => .wrongValue
    | .missingAttribute => .missingAttribute
    | .overflow => .overflow
  | foreign kind _ => kind
  | missing _ => .missingKey
  | tool _ _ _ => .tool
  | cancelled _ => .cancelled
  | overdue _ _ => .analyzerTimeout
  | store _ => .storage
  | beyondStore | beyondDays _ | tooManyDays _ | beyondCalendar => .overflow
  | unknownStrategy _ | unknownSource _ | unknownActions _ | emptyBatch | emptyStoreBatch
  | badBackoff | badPath => .wrongValue
  | noStore => .runtime
  | emptyCommand => .missingIndex
  | barred _ => .permission
  | namelessKey => .wrongType
  | settings _ => .settings
  | markup => .markup
  | analysis _ _ => .analysis
  | crossover _ _ => .crossover

mutual

/-- the wording of a failure -/
def message : Failure → String
  | fault f => f.message
  | foreign _ text => text
  | missing key => key.quote
  | tool command stderr status =>
    command ++ " failed (rc=" ++ (Value.int status).quote ++ "): " ++ Text.strip stderr
  | cancelled what => what ++ " was cancelled"
  | overdue engine seconds => engine ++ " timed out after " ++ Decimal.general seconds ++ "s"
  | store action => action.name ++ " failed"
  | beyondStore => "Python int too large to convert to SQLite INTEGER"
  | beyondDays _ => "Python int too large to convert to C int"
  | tooManyDays days => "days=" ++ (Value.int days).quote ++ "; must have magnitude <= 999999999"
  | beyondCalendar => "date value out of range"
  | unknownStrategy name => "Unknown deduplication strategy: " ++ name.display
  | unknownSource name => name.quote ++ " is not a valid ViolationSource"
  | unknownActions names => "Unknown history action(s): " ++ String.intercalate ", " names
  | emptyBatch => "chunk size must be positive"
  | emptyStoreBatch => "batch_size must be positive"
  | badBackoff => "zero_threshold and reduced_interval must be positive"
  | noStore => "run_cycle requires a storage service"
  | emptyCommand => "list index out of range"
  | barred name => "[Errno 13] Permission denied: " ++ Text.quoted name
  | badPath => "embedded null byte"
  | namelessKey => "keywords must be strings"
  | settings complaints => Decimal.digitText complaints.length ++ " validation errors"
  | markup => "invalid settings file"
  | analysis failures _ =>
    "Non-recoverable analyzer failure (" ++ String.intercalate ", " (messages failures) ++ ")"
  | crossover message _ => message

/-- the wordings of failures, each with the name of its analyzer -/
def messages : List (String × Failure) → List String
  | [] => []
  | (name, f) :: rest => (name ++ ": " ++ f.message) :: messages rest

end

/-- the wording of a failure, or the name of its group if it has no words -/
def wording (f : Failure) : String := if f.message = "" then f.kind.name else f.message

/-- why some seconds cannot be waited for: the clock counts nanoseconds in 64 bits -/
def ofWait? (seconds : Float) : Option Failure :=
  if 9223372036854775808 ≤ seconds * 1000000000 then
    some (.foreign .overflow "timestamp out of range for platform time_t")
  else none

end Failure

/-- a fault as a failure -/
def orFail {α : Type} : Except Fault α → Except Failure α
  | .ok a => .ok a
  | .error f => .error (.fault f)

/-- settings as they were read, or the failure over all that is wrong with them -/
def orComplain {α : Type} : Settings.Checked α → Except Failure α
  | .ok a => .ok a
  | .error complaints => .error (.settings complaints)

end LintLedger
