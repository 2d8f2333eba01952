import LintLedger.Console.Item
import LintLedger.Engine.Cycle
import LintLedger.Store.Overview

/-!
# Pages

What is shown of an analysis, of a cycle, of the watch and of the store.
-/

namespace LintLedger.Console

/-- a whole number -/
def number (i : Int) : String := (Value.int i).display

/-- the name of the program above a page -/
def banner : List Item := [.panel none "QualityIQ", .text ""]

/-- what is shown while analyzers run -/
def running : Item := .status "[bold cyan]Running analyzers…"

/-! ### Analyses -/

/-- the first `limit` items; a number below zero leaves out as many at the end -/
def upTo {α : Type} (limit : Int) (items : List α) : List α :=
  if 0 ≤ limit then items.take limit.toNat else items.take (items.length - limit.natAbs)

/-- the row of a violation -/
def violationCells (v : Violation) : List String :=
  let severity := v.severityValue.display
  [v.file.display ++ ":" ++ v.line.display, styled (severityStyle severity) severity,
    v.sourceValue.display, if v.rule.truthy then v.rule.display else "", v.wording.display]

/-- the violations of an analysis, at most `limit` of them -/
def violations (limit : Int) (vs : List Violation) : List Item :=
  if vs.isEmpty then []
  else
    .table "🔎 Violations" ["Location", "Severity", "Source", "Rule", "Message"]
        ((upTo limit vs).map violationCells)
      :: if limit < vs.length then
          [.text ("  " ++ styled "muted" ("… " ++ number (vs.length - limit) ++ " more"))]
        else []

/-- the panel of a warning, with at most five of its files -/
def warningPanel (w : Crossover.Warning) : Item :=
  let files := (w.files.take 5).map Value.display
  let named := if files.isEmpty then "" else "\n\nFiles: " ++ String.intercalate ", " files
  .panel (some ("⚡ " ++ w.message)) (w.details ++ "\n\n💡 " ++ w.suggestion ++ named)

/-- warnings of crossover, with what to do about it in general -/
def crossover (ws : List Crossover.Warning) : List Item :=
  ws.map warningPanel
    ++ if ws.isEmpty then []
      else [.panel (some "🧭 Recommended split")
        (String.intercalate "\n" (Crossover.advice.map ("• " ++ ·)))]

/-- names with their counts, or the word for none -/
def namedCounts (counts : Findings.Counts) : String :=
  if counts.isEmpty then "none"
  else String.intercalate ", " (counts.map fun c => c.1 ++ "=" ++ Decimal.digitText c.2)

/-- the files with the most violations -/
def topFiles (files : List (Value × Nat)) : List Item :=
  if files.isEmpty then []
  else [.table "📁 Top Files" ["File", "Violations"]
    (files.map fun f => [f.1.display, Decimal.digitText f.2])]

/-- the counts of an analysis.  Its time is not measured. -/
def summary (a : Analysis) : List Item :=
  let s := a.summary
  let counts := labelledCounts (countText s.bySeverity)
  .panel (some "📋 Analysis Summary")
      ("[bold]Total: " ++ Decimal.digitText s.total ++ "[/bold]  " ++ counts
        ++ "\nSources: " ++ namedCounts s.bySource
        ++ "\nAnalyzers: " ++ Decimal.digitText a.reports.length
        ++ "  Time: " ++ Decimal.fixed 2 0 ++ "s")
    :: topFiles s.topFiles ++ s.errors.map fun e => warning ("Analyzer failed: " ++ e)

/-- what a cycle changed -/
def cycle (c : Cycle) : List Item :=
  let d := c.delta
  info ("Check #" ++ number c.check
      ++ ": +" ++ Decimal.digitText d.added.length ++ " added, -"
      ++ Decimal.digitText d.removed.length ++ " removed, "
      ++ Decimal.digitText d.unchanged.length ++ " unchanged; "
      ++ Decimal.digitText c.stored.inserted ++ " new, "
      ++ Decimal.digitText c.stored.updated ++ " updated")
    :: c.stored.errors.map fun e => warning ("Rejected: " ++ e)

/-- the last word on an analysis -/
def verdict (a : Analysis) : List Item :=
  if a.violations.isEmpty then [success "No violations found."]
  else if a.hasErrors then [error "Error-severity violations found."]
  else []

/-- an analysis, and the cycle that kept it if there was one -/
def analysis (limit : Int) (a : Analysis) (kept : Option Cycle) : List Item :=
  violations limit a.violations ++ crossover a.warnings ++ summary a
    ++ kept.toList.flatMap cycle ++ verdict a

/-! ### The watch -/

/-- what the listener of the watch says of a cycle -/
def told (number : Nat) (result : Option Cycle) (failure : Option Failure) : List Item :=
  match failure, result with
  | some f, _ =>
    [error ("Cycle " ++ Decimal.digitText number ++ " failed: " ++ f.message)]
  | none, some c =>
    let s := c.analysis.summary
    [.text (styled "muted" ("#" ++ Decimal.digitText number) ++ " " ++ Decimal.digitText s.total
      ++ " violations (" ++ compactCounts (countText s.bySeverity) ++ ") +"
      ++ Decimal.digitText c.delta.added.length ++ " -"
      ++ Decimal.digitText c.delta.removed.length)]
  | none, none => []

/-- what is said of an event of the watch -/
def event : Watch.Event Cycle → List Item
  | .told _ number result failure => told number result failure
  | _ => []

/-- the beginning of the watch -/
def watchStart (root : Path) (interval : Float) : Item :=
  info ("Watching " ++ root.text ++ " every " ++ Decimal.general interval ++ "s (Ctrl+C to stop)")

/-- the end of the watch -/
def watchEnd (w : Watch Cycle) : Item :=
  success ("Watch stopped after " ++ Decimal.digitText w.cycles ++ " cycle(s), "
    ++ Decimal.digitText w.failures ++ " failed.")

/-! ### The store -/

/-- the head of the dashboard -/
def dashboardHead (d : Dashboard) (historyRows : Nat) : Item :=
  let last := match d.lastCheck with
    | some t => t.textSpaced
    | none => "never"
  .panel (some "📊 Dashboard")
    ("[bold]Active violations:[/bold] " ++ Decimal.digitText d.active
      ++ "  [bold]Files affected:[/bold] " ++ Decimal.digitText d.files
      ++ "\n" ++ labelledCounts (countText d.bySeverity)
      ++ "\n[bold]Last check:[/bold] " ++ last
      ++ "  [bold]History rows:[/bold] " ++ Decimal.digitText historyRows)

/-- the row of an item of the summary -/
def itemCells (i : SummaryItem) : List String :=
  let rule := match i.rule with
    | some r => if r = "" then "-" else r
    | none => "-"
  [rule, i.category, i.severity, i.source, Decimal.digitText i.count, Decimal.digitText i.files]

/-- the row of a rule's performance -/
def performanceCells (p : RulePerformance) : List String :=
  [p.rule, p.engine, Decimal.digitText p.runs, Decimal.digitText p.failed,
    Decimal.fixed 0 p.averageMilliseconds, number p.zeroStreak]

/-- how an analyzer goes through its rules -/
def scheduleText : Option Schedule → String
  | some s =>
    "rule " ++ s.status.progress ++ ", " ++ Decimal.digitText s.status.backedOff ++ " backed off"
  | none => "full run"

/-- the row of an analyzer -/
def analyzerCells (a : Analyzer) : List String :=
  let timeout := match a.settings.timeout with
    | some x => if x == 0 then "-" else Decimal.general x ++ "s"
    | none => "-"
  [a.name, a.source.name, number a.settings.priority, timeout, scheduleText a.schedule?]

/-- a table, if it has rows -/
def tableOf {α : Type} (title : String) (headers : List String) (row : α → List String)
    (items : List α) : List Item :=
  if items.isEmpty then [] else [.table title headers (items.map row)]

/-- the dashboard -/
def dashboard (d : Dashboard) (historyRows : Nat) (analyzers : List Analyzer) : List Item :=
  [dashboardHead d historyRows]
    ++ tableOf "📋 Active Violations by Rule"
        ["Rule", "Category", "Severity", "Source", "Count", "Files"] itemCells d.summary
    ++ tableOf "⏱️  Rule Performance"
        ["Rule", "Engine", "Runs", "Failed", "Avg ms", "Zero streak"] performanceCells d.performance
    ++ tableOf "🧩 Analyzers"
        ["Analyzer", "Source", "Priority", "Timeout", "Schedule"] analyzerCells analyzers
    ++ if d.active = 0 then [success "No active violations."] else []

/-- what came of resolving violations -/
def resolved (n : Nat) : Item :=
  if n = 0 then warning "No active violations matched."
  else success ("Resolved " ++ Decimal.digitText n ++ " violation(s).")

/-- what came of cleaning up -/
def removed (r : CleanupResult) : Item :=
  success ("Removed " ++ Decimal.digitText r.history ++ " history row(s), "
    ++ Decimal.digitText r.resolved ++ " resolved violation(s), "
    ++ Decimal.digitText r.metrics ++ " metric(s).")

end LintLedger.Console
