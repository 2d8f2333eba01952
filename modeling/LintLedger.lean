import LintLedger.Main
import LintLedger.Record.Cycle
import LintLedger.Record.Settings
import LintLedger.Proofs.Crossover.Policy
import LintLedger.Proofs.Engine.Agreement
import LintLedger.Proofs.Engine.Apart
import LintLedger.Proofs.Engine.Arrival
import LintLedger.Proofs.Engine.Closing
import LintLedger.Proofs.Engine.Completeness
import LintLedger.Proofs.Engine.Counted
import LintLedger.Proofs.Engine.Crash
import LintLedger.Proofs.Engine.ExitCode
import LintLedger.Proofs.Engine.Isolation
import LintLedger.Proofs.Engine.Policy
import LintLedger.Proofs.Engine.Registry
import LintLedger.Proofs.Engine.Repeated
import LintLedger.Proofs.Engine.Roles
import LintLedger.Proofs.Engine.Untouched
import LintLedger.Proofs.Store.Atomic
import LintLedger.Proofs.Store.Backoff
import LintLedger.Proofs.Store.Expiry
import LintLedger.Proofs.Store.Identity
import LintLedger.Proofs.Store.Overview
import LintLedger.Proofs.Store.Paging
import LintLedger.Proofs.Store.Partition
import LintLedger.Proofs.Store.Readback
import LintLedger.Proofs.Store.Resolution
import LintLedger.Proofs.Store.Screening
import LintLedger.Proofs.Analyzer.Attribution
import LintLedger.Proofs.Analyzer.Deadline
import LintLedger.Proofs.Analyzer.Fatal
import LintLedger.Proofs.Analyzer.RoundRobin
import LintLedger.Proofs.Analyzer.Unreadable
import LintLedger.Proofs.Schedule.History
import LintLedger.Proofs.Schedule.Selection
import LintLedger.Proofs.Findings.Accounted
import LintLedger.Proofs.Findings.FirstOfKey
import LintLedger.Proofs.Settings.Layers
import LintLedger.Proofs.Watch.Bounded
import LintLedger.Proofs.Watch.Endurance
import LintLedger.Proofs.Output.Listings
import LintLedger.Proofs.Output.Noise
import LintLedger.Proofs.Output.Truncated
import LintLedger.Proofs.Path
