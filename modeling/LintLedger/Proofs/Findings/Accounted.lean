import LintLedger.Proofs.Distinct
import LintLedger.Proofs.Order.Stable
import LintLedger.Proofs.Violation.Classes
import Mathlib

/-!
# What a summary accounts for

A summary counts every finding once by each of its classes (`isTally_countNames`), since the items of each
key, counted key by key, are all items.  Its files are the first few of a ranking of all files
(`isRanking_rankedFiles`), in which files with equally many findings stand as they first came: a stable sort
leaves them in the order in which the first of each key is kept.
-/

namespace LintLedger.Findings

open Outcome

variable {vs : List Violation} {reports : List Report} {top : ℕ} {names : List ClassNames}
  {summary : Summary}

/-! ### Counts by class -/

/-- whether counts are those of the classes of findings: each name that is listed is that of a class, with
the number of findings of that class, and every finding is counted once -/
structure IsTally {α : Type} [DecidableEq α] (label : Violation → Label α) (name : α → String)
    (vs : List Violation) (counts : Counts) : Prop where
  apart : (counts.map Prod.fst).Nodup
  each : ∀ entry ∈ counts, ∃ a, entry = (name a, vs.countP fun v => (label v).isClass a)
  all : ∀ v ∈ vs, ∃ a, label v = .known a ∧ name a ∈ counts.map Prod.fst
  sum : (counts.map Prod.snd).sum = vs.length

/-- the names of a class, counted, are counts of that class -/
theorem isTally_countNames {α : Type} [DecidableEq α] {label : Violation → Label α} {name : α → String}
    {named : ClassNames → String} (naming : IsNaming label name named)
    (h : vs.mapM classNames = .ok names) : IsTally label name vs (countNames (names.map named)) := by
  have listed : (countNames (names.map named)).map Prod.fst = distinct (names.map named) := by
    unfold countNames tallyBy distinct
    rw [List.map_map]
    exact List.map_id _
  refine ⟨listed ▸ nodup_distinct _, fun entry hentry => ?_, fun v hv => ?_, ?_⟩
  · obtain ⟨s, hs, rfl⟩ := List.mem_map.mp hentry
    obtain ⟨n, hn, rfl⟩ := List.mem_map.mp (mem_distinct.mp hs)
    obtain ⟨v, -, one⟩ := exists_of_mem_mapM h hn
    obtain ⟨a, -, same⟩ := Label.nameOf_eq_ok_iff.mp (naming.told v n one)
    refine ⟨a, ?_⟩
    rw [← naming.count h a, same, List.count_eq_countP]
    simp [beq_eq_decide]
  · obtain ⟨n, hn, one⟩ := exists_mem_mapM h hv
    obtain ⟨a, known, same⟩ := Label.nameOf_eq_ok_iff.mp (naming.told v n one)
    refine ⟨a, known, ?_⟩
    rw [listed, mem_distinct, same]
    exact List.mem_map_of_mem hn
  · have every := sum_tallyBy id (names.map named)
    rw [List.length_map, ← (mapM_eq_ok.mp h).length_eq] at every
    exact every

/-- the three severities, counted, are counts of severities -/
theorem isTally_countSeverities (h : vs.mapM classNames = .ok names) :
    IsTally Violation.severity Severity.name vs (countSeverities (names.map (·.severity))) := by
  have counted : countSeverities (names.map (·.severity)) =
      Severity.all.map fun s => (s.name, vs.countP fun v => v.severity.isClass s) :=
    List.map_congr_left fun s _ => by rw [isNaming_severity.count h]
  have known : ∀ v ∈ vs, ∃ s, v.severity = .known s := by
    intro v hv
    obtain ⟨n, -, one⟩ := exists_mem_mapM h hv
    exact (exists_classNames_eq_ok_iff.mp ⟨n, one⟩).severity
  rw [counted]
  refine ⟨?_, fun entry hentry => ?_, fun v hv => ?_, ?_⟩
  · rw [List.map_map]
    exact (by decide : (Severity.all.map Severity.name).Nodup)
  · obtain ⟨s, -, rfl⟩ := List.mem_map.mp hentry
    exact ⟨s, rfl⟩
  · obtain ⟨s, hs⟩ := known v hv
    refine ⟨s, hs, ?_⟩
    cases s <;> simp [Severity.all]
  · clear h counted
    induction vs with
    | nil => rfl
    | cons v rest ih =>
      have later := ih fun w hw => known w (List.mem_cons_of_mem v hw)
      obtain ⟨s, hs⟩ := known v List.mem_cons_self
      simp only [Severity.all, List.map_cons, List.map_nil, List.sum_cons, List.sum_nil, List.countP_cons,
        List.length_cons, hs, Label.isClass] at later ⊢
      cases s <;> simp <;> omega

/-! ### Files by their findings -/

/-- how many findings a file has -/
def foundIn (vs : List Violation) (file : Value) : ℕ := vs.countP fun v => v.file.key? = file.key?

/-- the place of the first finding of a file -/
def firstIn (vs : List Violation) (file : Value) : ℕ := beginsAt (·.file.key?) vs file.key?

/-- whether a file stands above another: it has more findings, or as many and the first of them came earlier -/
def Outranks (vs : List Violation) (f g : Value) : Prop :=
  foundIn vs g < foundIn vs f ∨ foundIn vs g = foundIn vs f ∧ firstIn vs f < firstIn vs g

/-- whether files are all those of some findings, each as it first came, and in the order of their ranks -/
structure IsRanking (vs : List Violation) (files : List Value) : Prop where
  sorted : files.Pairwise (Outranks vs)
  own : ∀ f ∈ files, (vs[firstIn vs f]?).map (·.file) = some f
  all : ∀ v ∈ vs, ∃ f ∈ files, f.key? = v.file.key?

/-- the files of some findings, each as it first came -/
def filesOf (vs : List Violation) : List Value := (distinctBy (·.file.key?) vs).map (·.file)

/-- whether a file has no fewer findings than another -/
def hasAsMany (vs : List Violation) (f g : Value) : Bool := foundIn vs g ≤ foundIn vs f

/-- the files of some findings by the number of their findings -/
def rankedFiles (vs : List Violation) : List Value := (filesOf vs).mergeSort (hasAsMany vs)

theorem mem_rankedFiles {f : Value} :
    f ∈ rankedFiles vs ↔ ∃ v ∈ distinctBy (·.file.key?) vs, v.file = f := by
  unfold rankedFiles filesOf
  rw [List.mem_mergeSort, List.mem_map]

theorem isRanking_rankedFiles (vs : List Violation) : IsRanking vs (rankedFiles vs) := by
  refine ⟨?_, fun f hf => ?_, fun v hv => ?_⟩
  · have before : (filesOf vs).Pairwise fun f g => firstIn vs f < firstIn vs g :=
      List.pairwise_map.mpr (pairwise_beginsAt _ vs)
    have trans : ∀ f g h, hasAsMany vs f g = true → hasAsMany vs g h = true → hasAsMany vs f h = true := by
      intro f g h
      simp only [hasAsMany, decide_eq_true_eq]
      omega
    have total : ∀ f g, (hasAsMany vs f g || hasAsMany vs g f) = true := by
      intro f g
      simp only [hasAsMany, Bool.or_eq_true, decide_eq_true_eq]
      omega
    refine (Order.pairwise_mergeSort_stable trans total before).imp fun {f g} both => ?_
    obtain ⟨more, tied⟩ := both
    rcases lt_or_eq_of_le (of_decide_eq_true more) with fewer | same
    · exact .inl fewer
    · exact .inr ⟨same, tied (decide_eq_true same.ge)⟩
  · obtain ⟨v, hv, rfl⟩ := mem_rankedFiles.mp hf
    unfold firstIn
    rw [getElem?_beginsAt hv]
    rfl
  · obtain ⟨w, hw, same⟩ : ∃ w ∈ distinctBy (·.file.key?) vs, w.file.key? = v.file.key? :=
      exists_mem_distinctBy hv
    exact ⟨w.file, mem_rankedFiles.mpr ⟨w, hw, rfl⟩, same⟩

theorem length_rankedFiles (vs : List Violation) :
    (rankedFiles vs).length = (vs.map (·.file.key?)).dedup.length := by
  unfold rankedFiles filesOf
  rw [List.length_mergeSort, List.length_map, ← (map_distinctBy_perm _ vs).length_eq, List.length_map]

/-- the files that a summary shows are the first of the ranking, with the numbers of their findings -/
theorem topFiles_eq {files : List (Key × Value)}
    (h : vs.mapM (fun v => do let key ← v.file.key; return (key, v.file)) = .ok files) :
    topFiles top files = ((rankedFiles vs).take top).map fun f => (f, foundIn vs f) := by
  have keyed : ∀ (v : Violation) (file : Key × Value),
      (do let key ← v.file.key; return (key, v.file) : Except Fault (Key × Value)) = .ok file ↔
        (∃ key, v.file.key = .ok key) ∧ file = ((v.file.key?).getD default, v.file) := by
    intro v file
    unfold Value.key?
    cases v.file.key with
    | error fault => simp [bind, Except.bind]
    | ok key => simp [bind, Except.bind, pure, Except.pure, Except.toOption, eq_comm]
  obtain ⟨known, rfl⟩ := (mapM_eq_ok_map keyed).mp h
  -- files that can be told apart are so by what their keys are, since each has one
  have same : ∀ v ∈ vs, ∀ w ∈ vs,
      (v.file.key?).getD default = (w.file.key?).getD default ↔ v.file.key? = w.file.key? := by
    intro v hv w hw
    obtain ⟨key, hkey⟩ := known v hv
    obtain ⟨key', hkey'⟩ := known w hw
    simp [Value.key?, hkey, hkey', Except.toOption]
  have counted : (tallyBy Prod.fst (vs.map fun v => ((v.file.key?).getD default, v.file))).map
      (fun e => (e.1.2, e.2)) = (filesOf vs).map fun f => (f, foundIn vs f) := by
    unfold tallyBy filesOf foundIn
    rw [distinctBy_map, List.map_map, List.map_map, List.map_map, ← distinctBy_congr same]
    refine List.map_congr_left fun v hv => ?_
    have mem : v ∈ vs := (distinctBy_sublist _ vs).subset hv
    simp only [Function.comp, List.countP_map, Prod.mk.injEq, true_and]
    exact List.countP_congr fun w hw => by simp [same w hw v mem]
  -- numbers may be put beside the files before they are put in order or after
  have ranked : (rankedFiles vs).map (fun f => (f, foundIn vs f)) =
      ((filesOf vs).map fun f => (f, foundIn vs f)).mergeSort fun a b => b.2 ≤ a.2 :=
    List.map_mergeSort fun f _ g _ => rfl
  unfold topFiles
  dsimp only
  rw [counted, List.map_take, ranked]

/-! ### The whole summary -/

/-- findings can be summed up just if their classes are known and their files can be told apart -/
theorem exists_summarize_eq_ok_iff : (∃ s, summarize vs reports top = .ok s) ↔
    ∀ v ∈ vs, v.IsClassed ∧ ∃ key, v.file.key = .ok key := by
  have filed : ∀ v : Violation,
      (∃ file, (do let key ← v.file.key; return (key, v.file) : Except Fault (Key × Value)) = .ok file) ↔
        ∃ key, v.file.key = .ok key := by
    intro v
    cases v.file.key <;> simp [bind, Except.bind, pure, Except.pure]
  simp only [← exists_classNames_eq_ok_iff, ← filed, forall₂_and, ← exists_mapM_eq_ok]
  constructor
  · rintro ⟨s, h⟩
    obtain ⟨names, hnames, h⟩ := bind_eq_ok.mp h
    obtain ⟨files, hfiles, -⟩ := bind_eq_ok.mp h
    exact ⟨⟨names, hnames⟩, files, hfiles⟩
  · rintro ⟨⟨names, hnames⟩, files, hfiles⟩
    exact ⟨_, bind_eq_ok.mpr ⟨names, hnames, bind_eq_ok.mpr ⟨files, hfiles, rfl⟩⟩⟩

/-- **A summary accounts for every finding.** It can be given of findings whose classes are known and whose
files are texts, and fails only over a class that is unknown or a file that is a list or a map.  Its total
is the number of findings; its counts by severity, of which there are always three, by source and by
category say of each class how many findings it has, and add up to the total; its files are the first few
of all files by the number of their findings, those with equally many in the order in which they first
came, with these numbers; and it has one line for each run that failed, in their order. -/
theorem every_finding_accounted (vs : List Violation) (reports : List Report) (top : ℕ) :
    ((∃ s, summarize vs reports top = .ok s) ↔ ∀ v ∈ vs, v.IsClassed ∧ ∃ key, v.file.key = .ok key) ∧
    ((∀ v ∈ vs, v.IsClassed ∧ ∃ file, v.file = .text file) → ∃ s, summarize vs reports top = .ok s) ∧
    ∀ s, summarize vs reports top = .ok s →
      s.total = vs.length ∧
      s.bySeverity.map Prod.fst = ["error", "warn", "info"] ∧
      IsTally Violation.severity Severity.name vs s.bySeverity ∧
      IsTally Violation.source Source.name vs s.bySource ∧
      IsTally Violation.category Category.name vs s.byCategory ∧
      (∃ ranking, IsRanking vs ranking ∧
        ranking.length = (vs.map (·.file.key?)).dedup.length ∧
        s.topFiles = (ranking.take top).map (fun f => (f, foundIn vs f)) ∧
        s.topFiles.length = min top ranking.length) ∧
      s.errors = (reports.filter fun r => !r.success).map fun r => r.engine ++ ": " ++ r.failure := by
  refine ⟨exists_summarize_eq_ok_iff, fun typed => ?_, fun s h => ?_⟩
  · refine exists_summarize_eq_ok_iff.mpr fun v hv => ⟨(typed v hv).1, ?_⟩
    obtain ⟨file, hfile⟩ := (typed v hv).2
    exact ⟨.text file, by rw [hfile]; rfl⟩
  · obtain ⟨names, hnames, h⟩ := bind_eq_ok.mp h
    obtain ⟨files, hfiles, h⟩ := bind_eq_ok.mp h
    cases h
    have shown : topFiles top files = _ := topFiles_eq hfiles
    refine ⟨rfl, rfl, isTally_countSeverities hnames, isTally_countNames isNaming_source hnames,
      isTally_countNames isNaming_category hnames,
      ⟨rankedFiles vs, isRanking_rankedFiles vs, length_rankedFiles vs, shown, ?_⟩, rfl⟩
    dsimp only
    rw [shown, List.length_map, List.length_take]

/-- a finding in a file -/
def inFile (file : String) (severity : Severity) : Violation :=
  ⟨.text file, .int 1, .text "x", .known .style, .known severity, .known .eslint, .null, .null, .null, .null⟩

/-- two files with one finding each, and then one with two -/
def uneven : List Violation :=
  [inFile "b.ts" .warn, inFile "a.ts" .error, inFile "c.ts" .warn, inFile "c.ts" .warn]

theorem inFile_typed (file : String) (severity : Severity) :
    (inFile file severity).IsClassed ∧ ∃ f, (inFile file severity).file = .text f :=
  ⟨⟨⟨_, rfl⟩, ⟨_, rfl⟩, _, rfl⟩, _, rfl⟩

theorem topFiles_uneven : topFiles 2 (uneven.map fun v => (v.file.key?.getD default, v.file)) =
    [(.text "c.ts", 2), (.text "b.ts", 1)] := by
  have counted : ((tallyBy Prod.fst (uneven.map fun v => (v.file.key?.getD default, v.file))).map
      fun e => (e.1.2, e.2)) = [(.text "b.ts", 1), (.text "a.ts", 1), (.text "c.ts", 2)] := rfl
  unfold topFiles
  rw [counted]
  simp [List.mergeSort]

/-- of the two files with one finding only the one that came first is shown -/
theorem every_finding_accounted_uneven :
    (∀ v ∈ uneven, v.IsClassed ∧ ∃ file, v.file = .text file) ∧
    ∃ s, summarize uneven [⟨"lint", [], .zero, false, some "", .none⟩] 2 = .ok s ∧
      s.total = 4 ∧ (s.bySeverity.map Prod.snd).sum = 4 ∧ (s.bySource.map Prod.snd).sum = 4 ∧
      s.topFiles = [(.text "c.ts", 2), (.text "b.ts", 1)] ∧ s.topFiles.length = 2 ∧
      s.errors = ["lint: failed"] := by
  obtain ⟨-, returns, accounts⟩ :=
    every_finding_accounted uneven [⟨"lint", [], .zero, false, some "", .none⟩] 2
  have typed : ∀ v ∈ uneven, v.IsClassed ∧ ∃ file, v.file = .text file := by
    simp [uneven, inFile_typed]
  obtain ⟨s, h⟩ := returns typed
  obtain ⟨total, -, severity, source, -, ⟨ranking, -, files, -, shown⟩, errors⟩ := accounts s h
  refine ⟨typed, s, h, total, severity.sum, source.sum, ?_, ?_, errors⟩
  · rw [← topFiles_uneven]
    cases h
    rfl
  · have distinctFiles : (uneven.map (·.file.key?)).dedup.length = 3 := by decide +kernel
    rw [shown, files, distinctFiles]
    rfl

end LintLedger.Findings
