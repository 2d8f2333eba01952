import LintLedger.Proofs.Settings.Bounds
import LintLedger.Proofs.Yaml.Mappings
import LintLedger.Settings.Load
import Mathlib

/-!
# Settings in layers

Without a file that is named, settings are read from the nearest folder in which there is a file of a known name,
and there from the first of these (`isNearest_of_nearest?`).  What that file says of its analyzers is laid over their
defaults: the entries of an analyzer, once laid over, are read field by field as the file says or else as the default
is (`IsLaidOver.overlay`), and the analyzers of which something is said by default come first, those that the file
adds behind them (`IsLaid.concat`).  Nothing else depends on what the file says of its analyzers
(`read_putEntry_engines`).  All of this together is `load_layered`.
-/

namespace LintLedger

/-! ### The nearest file -/

namespace Directory

variable {d : Directory} {names folder above : List String} {name : String} {p : Path}

/-- whether a file of some name lies in the nearest folder, of a folder and all those above it, that holds a file of
any of some names, and none of the names before its own lies there -/
structure IsNearest (d : Directory) (names folder above : List String) (name : String) : Prop where
  inside : above <+: folder
  there : d.hasFile ⟨.root, above ++ [name]⟩ = true
  first : ∃ before after, names = before ++ name :: after ∧
    ∀ n ∈ before, d.hasFile ⟨.root, above ++ [n]⟩ = false
  nearest : ∀ other, other <+: folder → above.length < other.length →
    ∀ n ∈ names, d.hasFile ⟨.root, other ++ [n]⟩ = false

/-- the first file of some names in a folder -/
theorem exists_of_find?_child (found : (names.map (Path.child ⟨.root, above⟩)).find? d.hasFile = some p) :
    ∃ name before after, p = ⟨.root, above ++ [name]⟩ ∧ d.hasFile p = true ∧ names = before ++ name :: after ∧
      ∀ n ∈ before, d.hasFile ⟨.root, above ++ [n]⟩ = false := by
  obtain ⟨there, before, after, same, none⟩ := List.find?_eq_some_iff_append.mp found
  obtain ⟨before, rest, rfl, rfl, behind⟩ := List.map_eq_append_iff.mp same
  obtain ⟨name, after, rfl, rfl, rfl⟩ := List.map_eq_cons_iff.mp behind
  refine ⟨name, before, after, rfl, there, rfl, fun n hn => ?_⟩
  exact Bool.not_eq_true' _ ▸ none _ (List.mem_map_of_mem hn)

theorem of_find?_child (missing : (names.map (Path.child ⟨.root, above⟩)).find? d.hasFile = none) :
    ∀ n ∈ names, d.hasFile ⟨.root, above ++ [n]⟩ = false :=
  fun _ hn => Bool.eq_false_iff.mpr (List.find?_eq_none.mp missing _ (List.mem_map_of_mem hn))

theorem nearest?_concat (part : String) : d.nearest? names (folder ++ [part]).reverse =
    ((names.map (Path.child ⟨.root, folder ++ [part]⟩)).find? d.hasFile).or (d.nearest? names folder.reverse) := by
  rw [List.reverse_concat, nearest?]
  have same : (part :: folder.reverse).reverse = folder ++ [part] := by
    rw [List.reverse_cons, List.reverse_reverse]
  rw [same]
  cases (names.map (Path.child ⟨.root, folder ++ [part]⟩)).find? d.hasFile <;> rfl

theorem isNearest_of_nearest? (found : d.nearest? names folder.reverse = some p) :
    ∃ above name, p = ⟨.root, above ++ [name]⟩ ∧ IsNearest d names folder above name := by
  induction folder using List.reverseRecOn with
  | nil =>
    have here : (names.map (Path.child ⟨.root, []⟩)).find? d.hasFile = some p := found
    obtain ⟨name, before, after, rfl, there, first⟩ := exists_of_find?_child here
    refine ⟨[], name, rfl, List.prefix_rfl, there, ⟨before, after, first⟩, fun other inside longer => ?_⟩
    rw [List.prefix_nil.mp inside] at longer
    exact absurd longer (Nat.lt_irrefl _)
  | append_singleton folder part ih =>
    rw [nearest?_concat] at found
    rcases Option.or_eq_some_iff.mp found with here | ⟨missing, further⟩
    · obtain ⟨name, before, after, rfl, there, first⟩ := exists_of_find?_child here
      refine ⟨_, name, rfl, List.prefix_rfl, there, ⟨before, after, first⟩, fun other inside longer => ?_⟩
      exact absurd longer (Nat.not_lt.mpr inside.length_le)
    · obtain ⟨above, name, rfl, nearest⟩ := ih further
      refine ⟨above, name, rfl, nearest.inside.trans (List.prefix_append _ _), nearest.there, nearest.first,
        fun other inside longer => ?_⟩
      rcases List.prefix_concat_iff.mp inside with rfl | inside
      · exact of_find?_child missing
      · exact nearest.nearest other inside longer

theorem hasFile_of_nearest?_eq_none (missing : d.nearest? names folder.reverse = none) :
    ∀ other, other <+: folder → ∀ n ∈ names, d.hasFile ⟨.root, other ++ [n]⟩ = false := by
  induction folder using List.reverseRecOn with
  | nil =>
    intro other inside
    rw [List.prefix_nil.mp inside]
    exact of_find?_child missing
  | append_singleton folder part ih =>
    rw [nearest?_concat] at missing
    obtain ⟨here, further⟩ := Option.or_eq_none_iff.mp missing
    intro other inside
    rcases List.prefix_concat_iff.mp inside with rfl | inside
    · exact of_find?_child here
    · exact ih further other inside

end Directory

namespace Settings

open Outcome Value

variable {α β γ : Type} {es base said old engines : List (Value × Value)} {place : List Value} {name : String}
  {d s : AnalyzerSettings}

/-- **The file that is read** is the first of a known name in the nearest folder that has any; without one, all is as
by default. -/
theorem load_nearest (files : Directory) (folder : Path) :
    (∃ above name text, files.IsNearest fileNames folder.resolve.parts above name ∧
      files.read? ⟨.root, above ++ [name]⟩ = some text ∧ load files none folder = ofText text) ∨
    ((∀ above, above <+: folder.resolve.parts → ∀ n ∈ fileNames, files.hasFile ⟨.root, above ++ [n]⟩ = false) ∧
      load files none folder = .ok {}) := by
  unfold load
  dsimp only
  cases found : files.nearest? fileNames folder.resolve.parts.reverse with
  | none => exact .inr ⟨Directory.hasFile_of_nearest?_eq_none found, rfl⟩
  | some p =>
    obtain ⟨above, name, rfl, nearest⟩ := Directory.isNearest_of_nearest? found
    obtain ⟨text, read⟩ := Option.isSome_iff_exists.mp nearest.there
    refine .inl ⟨above, name, text, nearest, read, ?_⟩
    rw [Option.bind_some, read]

/-! ### One analyzer -/

/-- the options of an analyzer -/
def readOptions (place : List Value) (v : Value) : Checked (List (Value × Value)) :=
  (readEntries (fun _ w => .ok w) place v).map fun entries => entries.map fun e => (.text e.1, e.2)

/-- whether settings of the analyzer of a name are, field by field, what is said of it, or else what its defaults
are -/
structure IsLaidOver (name : String) (said : List (Value × Value)) (d s : AnalyzerSettings) : Prop where
  enabled : readField said [.text "engines", .text name] "enabled" d.enabled readBool = .ok s.enabled
  priority : readField said [.text "engines", .text name] "priority" d.priority readInt = .ok s.priority
  timeout : readField said [.text "engines", .text name] "timeout" d.timeout (readOptional readFloat) = .ok s.timeout
  allowFailure : readField said [.text "engines", .text name] "allow_failure" d.allowFailure readBool =
    .ok s.allowFailure
  options : readField said [.text "engines", .text name] "options" d.options readOptions = .ok s.options

theorem readAnalyzer_eq_ok : readAnalyzer [.text "engines", .text name] said = .ok s ↔
    IsLaidOver name said .default s := by
  constructor
  · intro h
    obtain ⟨_, options, h₁, hoptions, rfl⟩ := andAlso_eq_ok.mp h
    obtain ⟨_, allowFailure, h₂, hallowFailure, rfl⟩ := andAlso_eq_ok.mp h₁
    obtain ⟨_, timeout, h₃, htimeout, rfl⟩ := andAlso_eq_ok.mp h₂
    obtain ⟨_, priority, h₄, hpriority, rfl⟩ := andAlso_eq_ok.mp h₃
    obtain ⟨_, enabled, h₅, henabled, rfl⟩ := andAlso_eq_ok.mp h₄
    cases h₅
    exact ⟨henabled, hpriority, htimeout, hallowFailure, hoptions⟩
  · intro h
    refine andAlso_eq_ok.mpr ⟨.mk s.enabled s.priority s.timeout s.allowFailure, _, ?_, h.options, rfl⟩
    refine andAlso_eq_ok.mpr ⟨.mk s.enabled s.priority s.timeout, _, ?_, h.allowFailure, rfl⟩
    refine andAlso_eq_ok.mpr ⟨.mk s.enabled s.priority, _, ?_, h.timeout, rfl⟩
    refine andAlso_eq_ok.mpr ⟨.mk s.enabled, _, ?_, h.priority, rfl⟩
    exact andAlso_eq_ok.mpr ⟨.mk, _, rfl, h.enabled, rfl⟩

/-- a field of entries laid over others is read from the upper ones, with what the lower ones say for its default -/
theorem readField_overlay {read : List Value → Value → Checked α} {default x : α} (distinct : IsDistinct said)
    (lower : readField old place name default read = .ok x) :
    readField (Yaml.overlay old said) place name default read = readField said place name x read := by
  unfold readField at lower ⊢
  rw [Yaml.find?_overlay distinct]
  cases find? said name with
  | some v => rfl
  | none => exact lower

/-- a field that can be read with one default can be read with any -/
theorem exists_readField {read : List Value → Value → Checked α} {default x : α}
    (h : readField said place name default read = .ok x) (other : α) :
    ∃ y, readField said place name other read = .ok y := by
  unfold readField at h ⊢
  generalize find? said name = found at h
  cases found with
  | some v => exact ⟨x, h⟩
  | none => exact ⟨other, rfl⟩

/-- **What is said of an analyzer, laid over its defaults**, is read field by field. -/
theorem IsLaidOver.overlay (distinct : IsDistinct said) (lower : IsLaidOver name old .default d)
    (upper : IsLaidOver name said d s) : IsLaidOver name (Yaml.overlay old said) .default s :=
  ⟨(readField_overlay distinct lower.enabled).trans upper.enabled,
    (readField_overlay distinct lower.priority).trans upper.priority,
    (readField_overlay distinct lower.timeout).trans upper.timeout,
    (readField_overlay distinct lower.allowFailure).trans upper.allowFailure,
    (readField_overlay distinct lower.options).trans upper.options⟩

theorem IsLaidOver.exists_over (h : IsLaidOver name said d s) (other : AnalyzerSettings) :
    ∃ s, IsLaidOver name said other s := by
  obtain ⟨enabled, henabled⟩ := exists_readField h.enabled other.enabled
  obtain ⟨priority, hpriority⟩ := exists_readField h.priority other.priority
  obtain ⟨timeout, htimeout⟩ := exists_readField h.timeout other.timeout
  obtain ⟨allowFailure, hallowFailure⟩ := exists_readField h.allowFailure other.allowFailure
  obtain ⟨options, hoptions⟩ := exists_readField h.options other.options
  exact ⟨⟨enabled, priority, timeout, allowFailure, options⟩, henabled, hpriority, htimeout, hallowFailure, hoptions⟩

/-- what is said by default of an analyzer, as a map -/
def defaultSaid (name : String) : List (Value × Value) :=
  ((defaultAnalyzers.lookup name).map analyzerEntries).getD []

/-- the defaults of an analyzer are read back from their map; where there is none they are the general ones -/
theorem isLaidOver_defaultSaid (name : String) :
    IsLaidOver name (defaultSaid name) .default (({} : Settings).engine name) := by
  have each : ∀ entry ∈ defaultAnalyzers, IsLaidOver entry.1 (analyzerEntries entry.2) .default entry.2 := by
    simp only [defaultAnalyzers, List.forall_mem_cons]
    exact ⟨⟨rfl, rfl, rfl, rfl, rfl⟩, ⟨rfl, rfl, rfl, rfl, rfl⟩, ⟨rfl, rfl, rfl, rfl, rfl⟩, nofun⟩
  unfold defaultSaid Settings.engine
  change IsLaidOver name (((defaultAnalyzers.lookup name).map analyzerEntries).getD []) .default
    ((defaultAnalyzers.lookup name).getD .default)
  cases found : defaultAnalyzers.lookup name with
  | none => exact ⟨rfl, rfl, rfl, rfl, rfl⟩
  | some d =>
    obtain ⟨before, after, all, -⟩ := List.lookup_eq_some_iff.mp found
    exact each (name, d) (all ▸ List.mem_append_right _ List.mem_cons_self)

/-! ### All analyzers -/

/-- the name of an analyzer that a key is -/
def nameOf : Value → String
  | .text name => name
  | _ => ""

/-- the settings that a value holds, none if it is no map -/
def fieldsOf : Value → List (Value × Value)
  | .map fields => fields
  | _ => []

/-- what a file says of the analyzer of a name -/
def saidOf (engines : List (Value × Value)) (name : String) : List (Value × Value) :=
  ((find? engines name).map fieldsOf).getD []

/-- whether an entry says something valid of an analyzer: it has a name for its key, and nothing, or settings that
can be taken, for its value -/
structure IsBlock (entry : Value × Value) : Prop where
  name : entry.1 = .text (nameOf entry.1)
  said : entry.2 = .null ∨ entry.2 = .map (fieldsOf entry.2)
  valid : ∃ s, readAnalyzer [.text "engines", entry.1] (fieldsOf entry.2) = .ok s

/-- the settings of analyzers, each a map, as a map -/
def asEntries (rows : List (String × List (Value × Value))) : List (Value × Value) :=
  rows.map fun row => (.text row.1, .map row.2)

/-- rows with the row of a name put in, in its place if there is one -/
def putRow (rows : List (String × List (Value × Value))) (name : String) (fields : List (Value × Value)) :
    List (String × List (Value × Value)) :=
  if rows.any (·.1 == name) then rows.map fun row => if row.1 == name then (row.1, fields) else row
  else rows ++ [(name, fields)]

/-- whether rows are those of the analyzers of which something is said by default, then of those that a file adds,
each with what the file says laid over the default -/
structure IsLaid (engines : List (Value × Value)) (rows : List (String × List (Value × Value))) : Prop where
  names : rows.map (·.1) = defaultAnalyzers.map (·.1) ++
    (engines.map fun e => nameOf e.1).filter (· ∉ defaultAnalyzers.map (·.1))
  said : ∀ row ∈ rows, row.2 = Yaml.overlay (defaultSaid row.1) (saidOf engines row.1)

variable {rows : List (String × List (Value × Value))} {entry : Value × Value}

theorem isLaid_nil : IsLaid [] (defaultAnalyzers.map fun e => (e.1, analyzerEntries e.2)) where
  names := by rw [List.map_map]; rfl
  said := by
    simp only [defaultAnalyzers, List.map_cons, List.map_nil, List.forall_mem_cons]
    exact ⟨rfl, rfl, rfl, nofun⟩

theorem key?_beq (row name : String) : ((text row).key? == (text name).key?) = (row == name) := by
  rw [Bool.eq_iff_iff, beq_iff_eq, beq_iff_eq]
  exact key?_eq_text.trans (by rw [Value.text.injEq])

theorem putEntry_asEntries (rows : List (String × List (Value × Value))) (name : String)
    (fields : List (Value × Value)) :
    putEntry (asEntries rows) (.text name) (.map fields) = asEntries (putRow rows name fields) := by
  unfold putEntry putRow asEntries
  simp only [List.any_map, Function.comp_def, key?_beq]
  split
  · rw [List.map_map, List.map_map]
    refine List.map_congr_left fun row _ => ?_
    simp only [Function.comp_apply, key?_beq]
    split <;> rfl
  · rw [List.map_append]
    rfl

/-- what the row of a name holds -/
theorem row_asEntries (rows : List (String × List (Value × Value))) (name : String) :
    (match (asEntries rows).find? fun e => e.1.key? == (text name).key? with
      | some (_, .map es) => es
      | _ => []) = (rows.lookup name).getD [] := by
  induction rows with
  | nil => rfl
  | cons row rest ih =>
    obtain ⟨other, fields⟩ := row
    rw [List.lookup_cons, asEntries, List.map_cons, List.find?_cons]
    dsimp only
    rw [key?_beq, Bool.beq_comm (a := name)]
    cases other == name with
    | true => rfl
    | false => exact ih

/-- laying over the row of an analyzer changes that row alone -/
theorem layOver_asEntries (block : IsBlock entry) : layOver (asEntries rows) entry.1 entry.2 =
    .ok (asEntries (putRow rows (nameOf entry.1)
      (Yaml.overlay ((rows.lookup (nameOf entry.1)).getD []) (fieldsOf entry.2)))) := by
  obtain ⟨key, v⟩ := entry
  obtain ⟨named, said, -⟩ := block
  dsimp only at named said ⊢
  rw [← putEntry_asEntries, ← row_asEntries, ← named]
  rcases said with rfl | same
  · rfl
  · obtain ⟨fields, rfl⟩ : ∃ fields, v = .map fields := ⟨_, same⟩
    cases fields <;> rfl

theorem names_putRow (rows : List (String × List (Value × Value))) (name : String) (fields : List (Value × Value)) :
    (putRow rows name fields).map (·.1) =
      if name ∈ rows.map (·.1) then rows.map (·.1) else rows.map (·.1) ++ [name] := by
  have known : (rows.any (·.1 == name)) = true ↔ name ∈ rows.map (·.1) := by
    rw [List.any_eq_true, List.mem_map]
    exact exists_congr fun row => and_congr_right fun _ => beq_iff_eq
  unfold putRow
  by_cases there : name ∈ rows.map (·.1)
  · rw [if_pos (known.mpr there), if_pos there, List.map_map]
    refine List.map_congr_left fun row _ => ?_
    dsimp only [Function.comp_apply]
    split <;> rfl
  · rw [if_neg (mt known.mp there), if_neg there, List.map_append]
    rfl

/-- a row is the one that is put in, or it was there before under another name -/
theorem eq_or_mem_of_mem_putRow {row : String × List (Value × Value)} {fields : List (Value × Value)}
    (h : row ∈ putRow rows name fields) : row = (name, fields) ∨ (row.1 ≠ name ∧ row ∈ rows) := by
  unfold putRow at h
  split at h
  · obtain ⟨old, mem, rfl⟩ := List.mem_map.mp h
    split
    · rename_i same
      rw [beq_iff_eq] at same
      exact .inl (by rw [same])
    · rename_i other
      exact .inr ⟨fun same => other (beq_iff_eq.mpr same), mem⟩
  · rename_i fresh
    rcases List.mem_append.mp h with old | new
    · refine .inr ⟨fun same => fresh ?_, old⟩
      exact List.any_eq_true.mpr ⟨row, old, beq_iff_eq.mpr same⟩
    · exact .inl (List.mem_singleton.mp new)

/-- **One analyzer more**, of which a file has not said anything yet. -/
theorem IsLaid.concat (h : IsLaid engines rows) (block : IsBlock entry)
    (distinct : IsDistinct (engines ++ [entry])) (names : ∀ e ∈ engines, e.1 = .text (nameOf e.1)) :
    IsLaid (engines ++ [entry]) (putRow rows (nameOf entry.1)
      (Yaml.overlay ((rows.lookup (nameOf entry.1)).getD []) (fieldsOf entry.2))) := by
  obtain ⟨key, v⟩ := entry
  have named : key = .text (nameOf key) := block.name
  dsimp only at distinct ⊢
  generalize nameOf key = name at named
  subst named
  unfold IsDistinct at distinct
  rw [List.map_append, List.nodup_append] at distinct
  have fresh : ∀ e ∈ engines, e.1 ≠ .text name := fun e he same =>
    distinct.2.2 _ (List.mem_map_of_mem he) _ (List.mem_singleton_self _) (congrArg key? same)
  have silent : saidOf engines name = [] := by
    rw [saidOf, find?_eq_none.mpr fresh]
    rfl
  have same : saidOf (engines ++ [(.text name, v)]) name = fieldsOf v := by
    rw [saidOf, find?_append, find?_eq_none.mpr fresh, find?_cons_self]
    rfl
  have kept {other : String} (differs : other ≠ name) :
      saidOf (engines ++ [(.text name, v)]) other = saidOf engines other := by
    rw [saidOf, find?_append, find?_cons_of_ne fun same => differs (Value.text.inj same).symm]
    exact congrArg (fun found => (Option.map fieldsOf found).getD []) Option.or_none
  have known : name ∈ rows.map (·.1) ↔ name ∈ defaultAnalyzers.map (·.1) := by
    rw [h.names, List.mem_append, or_iff_left]
    intro added
    obtain ⟨e, he, rfl⟩ := List.mem_map.mp (List.mem_of_mem_filter added)
    exact fresh e he (names e he)
  have before : (rows.lookup name).getD [] = defaultSaid name := by
    cases found : rows.lookup name with
    | none =>
      have missing : defaultAnalyzers.lookup name = none := List.lookup_eq_none_iff.mpr fun entry mem => by
        have other : name ∉ rows.map (·.1) := fun there => by
          obtain ⟨row, mem, rfl⟩ := List.mem_map.mp there
          exact absurd (List.lookup_eq_none_iff.mp found row mem) (by simp)
        rw [known] at other
        simpa using fun same : name = entry.1 => other (same ▸ List.mem_map_of_mem mem)
      rw [defaultSaid, missing]
      rfl
    | some fields =>
      obtain ⟨above, below, all, -⟩ := List.lookup_eq_some_iff.mp found
      have held := h.said (name, fields) (all ▸ List.mem_append_right _ List.mem_cons_self)
      rw [silent] at held
      exact held
  refine ⟨?_, fun row mem => ?_⟩
  · have last : nameOf (.text name) = name := rfl
    rw [names_putRow, List.map_append, List.filter_append, ← List.append_assoc, ← h.names, List.map_singleton, last]
    by_cases there : name ∈ defaultAnalyzers.map (·.1)
    · rw [if_pos (known.mpr there), List.filter_singleton, decide_eq_false (not_not.mpr there)]
      exact (List.append_nil _).symm
    · rw [if_neg (mt known.mp there), List.filter_singleton, decide_eq_true there]
      rfl
  · rcases eq_or_mem_of_mem_putRow mem with rfl | ⟨differs, old⟩
    · rw [same, before]
    · rw [kept differs]
      exact h.said row old

/-- **What a file says of its analyzers**, laid over what is said of them by default. -/
theorem exists_isLaid (engines : List (Value × Value)) (distinct : IsDistinct engines)
    (blocks : ∀ e ∈ engines, IsBlock e) : ∃ rows, IsLaid engines rows ∧
      engines.foldlM (fun acc e => layOver acc e.1 e.2) defaultEntries = .ok (asEntries rows) := by
  induction engines using List.reverseRecOn with
  | nil => exact ⟨_, isLaid_nil, rfl⟩
  | append_singleton engines entry ih =>
    have earlier : IsDistinct engines := by
      unfold IsDistinct at distinct
      rw [List.map_append] at distinct
      exact distinct.of_append_left
    have block := blocks entry (List.mem_append_right _ (List.mem_singleton_self _))
    have others (e : Value × Value) (he : e ∈ engines) : IsBlock e := blocks e (List.mem_append_left _ he)
    obtain ⟨rows, laid, folded⟩ := ih earlier others
    refine ⟨_, laid.concat block distinct fun e he => (others e he).name, ?_⟩
    rw [List.foldlM_append, folded, ok_bind, List.foldlM_cons, layOver_asEntries block, ok_bind]
    rfl

/-- the analyzers that rows give, if each of them can be taken -/
theorem exists_readEntries {P : String → AnalyzerSettings → Prop} (rows : List (String × List (Value × Value)))
    (each : ∀ row ∈ rows, ∃ s, readAnalyzer [.text "engines", .text row.1] row.2 = .ok s ∧ P row.1 s) :
    ∃ all, readEntries readAnalyzerGroup [.text "engines"] (.map (asEntries rows)) = .ok all ∧
      all.map (·.1) = rows.map (·.1) ∧ ∀ entry ∈ all, P entry.1 entry.2 := by
  induction rows with
  | nil => exact ⟨[], rfl, rfl, nofun⟩
  | cons row rest ih =>
    obtain ⟨one, others⟩ := List.forall_mem_cons.mp each
    obtain ⟨s, taken, holds⟩ := one
    obtain ⟨all, read, names, hold⟩ := ih others
    refine ⟨(row.1, s) :: all, ?_, by rw [List.map_cons, names, List.map_cons], List.forall_mem_cons.mpr ⟨holds, hold⟩⟩
    have group : readAnalyzerGroup ([.text "engines"] ++ [placeOfKey (.text row.1)]) (.map row.2) = .ok s := taken
    unfold readEntries asEntries at read ⊢
    dsimp only at read ⊢
    rw [List.map_cons, List.map_cons, collect, read]
    dsimp only
    rw [group]
    rfl

/-! ### All settings -/

theorem map_andAlso (f : Checked (α → β)) (a : Checked α) (g : β → γ) :
    (andAlso f a).map g = andAlso (f.map fun h x => g (h x)) a := by
  cases f <;> cases a <;> rfl

theorem andAlso_ok (f : Checked (α → β)) (a : α) : andAlso f (.ok a) = f.map fun h => h a := by
  cases f <;> rfl

theorem readField_congr {read : List Value → Value → Checked α} {default : α} {es more : List (Value × Value)}
    (same : find? es name = find? more name) :
    readField es place name default read = readField more place name default read := by
  unfold readField
  rw [same]

/-- **No other setting depends on the analyzers.** Where the analyzers can be taken, entries give the settings that
they give otherwise, but for the analyzers. -/
theorem read_eq_map {es more : List (Value × Value)} {all : List (String × AnalyzerSettings)}
    (analyzers : readField es [] "engines" ({} : Settings).engines (readEntries readAnalyzerGroup) = .ok all)
    (silent : find? more "engines" = none)
    (others : ∀ name, name ≠ "engines" → find? es name = find? more name) :
    read es = (read more).map fun s => { s with engines := all } := by
  have default : readField more [] "engines" ({} : Settings).engines (readEntries readAnalyzerGroup) =
      .ok ({} : Settings).engines := by
    unfold readField
    rw [silent]
  have other {α : Type} {read : List Value → Value → Checked α} {default : α} (name : String)
      (differs : name ≠ "engines") : readField es [] name default read = readField more [] name default read :=
    readField_congr (others name differs)
  unfold read
  dsimp only
  rw [analyzers, default, other "target_path" (by decide), other "top_files" (by decide),
    other "deduplication" (by decide), other "crossover" (by decide), other "scheduler" (by decide),
    other "database" (by decide), other "watch" (by decide)]
  simp only [map_andAlso, andAlso_ok]
  rfl

/-- entries without what is said of the analyzers -/
def withoutEngines (es : List (Value × Value)) : List (Value × Value) :=
  es.filter fun e => e.1.key? != some (.text "engines")

/-- the settings that entries give as they stand -/
def ofEntries (es : List (Value × Value)) : Except Failure Settings :=
  if es.any fun e => !isName e.1 then .error .namelessKey
  else
    match read es with
    | .ok settings => .ok settings
    | .error complaints => .error (.settings complaints)

theorem find?_withoutEngines_self (es : List (Value × Value)) : find? (withoutEngines es) "engines" = none := by
  refine find?_eq_none.mpr fun e he same => ?_
  have kept := (List.mem_filter.mp he).2
  rw [same] at kept
  exact absurd kept (by decide)

theorem find?_withoutEngines_of_ne (other : name ≠ "engines") (es : List (Value × Value)) :
    find? (withoutEngines es) name = find? es name := by
  induction es with
  | nil => rfl
  | cons e rest ih =>
    obtain ⟨key, v⟩ := e
    unfold withoutEngines at ih ⊢
    rw [List.filter_cons]
    split
    · by_cases same : key = .text name
      · subst same
        rw [find?_cons_self, find?_cons_self]
      · rw [find?_cons_of_ne same, find?_cons_of_ne same, ih]
    · rename_i gone
      have own : key = .text "engines" := key?_eq_text.mp (by simpa using gone)
      rw [ih, own, find?_cons_of_ne fun same => other (Value.text.inj same).symm]

theorem any_withoutEngines (es : List (Value × Value)) :
    ((withoutEngines es).any fun e => !isName e.1) = es.any fun e => !isName e.1 := by
  have kept (key : Value) : (key.key? != some (.text "engines") && !isName key) = !isName key := by
    cases named : isName key with
    | true => rw [Bool.not_true, Bool.and_false]
    | false =>
      have other : key.key? ≠ some (.text "engines") := fun same => by
        rw [key?_eq_text.mp same] at named
        cases named
      rw [bne_iff_ne.mpr other, Bool.true_and]
  unfold withoutEngines
  rw [List.any_filter]
  simp only [kept]

theorem any_putEntry (es : List (Value × Value)) (name : String) (v : Value) :
    ((putEntry es (.text name) v).any fun e => !isName e.1) = es.any fun e => !isName e.1 := by
  unfold putEntry
  split
  · rw [List.any_map]
    refine congrArg (List.any es) (funext fun e => ?_)
    dsimp only [Function.comp_apply]
    split <;> rfl
  · rw [List.any_append]
    exact Bool.or_false _

theorem ofEntries_eq_map {es more : List (Value × Value)} {f : Settings → Settings}
    (names : (es.any fun e => !isName e.1) = more.any fun e => !isName e.1) (same : read es = (read more).map f) :
    ofEntries es = (ofEntries more).map f := by
  unfold ofEntries
  rw [names, same]
  split
  · rfl
  · cases read more <;> rfl

theorem ofText_eq {text : String}
    (parsed : Yaml.read (String.ofList (Text.unifyNewlines text.toList)) = .ok (.map es)) :
    ofText text = orFail (layered (.map es)) >>= ofEntries := by
  unfold ofText
  rw [parsed]
  rfl

theorem layered_map {merged : List (Value × Value)} (found : find? es "engines" = some (.map engines))
    (folded : engines.foldlM (fun acc e => layOver acc e.1 e.2) defaultEntries = .ok merged) :
    layered (.map es) = .ok (putEntry es (.text "engines") (.map merged)) := by
  have said : (if (Value.map es).truthy then Value.map es else .map []) = .map es := by
    cases es with
    | nil => rfl
    | cons e rest => rfl
  unfold layered
  rw [said]
  simp only [Value.get, Value.entries, ok_bind, found, folded]
  rfl

/-- what is said of an analyzer holds no key twice, and can be taken -/
theorem saidOf_valid (within : Yaml.IsWritten (.map engines)) (blocks : ∀ entry ∈ engines, IsBlock entry)
    (name : String) : IsDistinct (saidOf engines name) ∧ ∃ s, IsLaidOver name (saidOf engines name) .default s := by
  unfold saidOf
  cases found : find? engines name with
  | none => exact ⟨List.nodup_nil, .default, rfl, rfl, rfl, rfl, rfl⟩
  | some v =>
    have mem := mem_of_find? found
    have block := blocks _ mem
    obtain ⟨s, valid⟩ := block.valid
    refine ⟨?_, s, readAnalyzer_eq_ok.mp valid⟩
    rcases block.said with rfl | same
    · exact List.nodup_nil
    · have fields : Yaml.IsWritten (.map (fieldsOf v)) := same ▸ within.of_mem mem
      exact fields.isDistinct

/-- **Settings in layers.** Without a file that is named, the file that is read is the first of a known name in the
nearest folder that holds any, of the folder and those above it, and that file alone; without one, all is as by
default.  Where a text says something valid of analyzers, and of them only, in a map of names, the analyzers of
which something is said by default come first, in their order, then those that the text adds, in its order; each is,
field by field, as the text says, or else as it is by default.  All other settings, and all complaints, are those of
the text without what it says of analyzers. -/
theorem load_layered (files : Directory) (folder : Path) :
    ((∃ above name text, files.IsNearest fileNames folder.resolve.parts above name ∧
      files.read? ⟨.root, above ++ [name]⟩ = some text ∧ load files none folder = ofText text) ∨
    ((∀ above, above <+: folder.resolve.parts → ∀ n ∈ fileNames, files.hasFile ⟨.root, above ++ [n]⟩ = false) ∧
      load files none folder = .ok {})) ∧
    ∀ text es engines, Yaml.read (String.ofList (Text.unifyNewlines text.toList)) = .ok (.map es) →
      find? es "engines" = some (.map engines) → (∀ entry ∈ engines, IsBlock entry) →
      ∃ all, ofText text = (ofEntries (withoutEngines es)).map (fun s => { s with engines := all }) ∧
        all.map (·.1) = ["typescript", "eslint", "unused-exports"] ++
          (engines.map fun e => nameOf e.1).filter (· ∉ ["typescript", "eslint", "unused-exports"]) ∧
        ∀ entry ∈ all, IsLaidOver entry.1 (saidOf engines entry.1) (({} : Settings).engine entry.1) entry.2 := by
  refine ⟨load_nearest files folder, fun text es engines parsed found blocks => ?_⟩
  have written := Yaml.isWritten_of_read parsed
  have within : Yaml.IsWritten (.map engines) := written.of_mem (mem_of_find? found)
  obtain ⟨rows, laid, folded⟩ := exists_isLaid engines within.isDistinct blocks
  have taken : ∀ row ∈ rows, ∃ s, readAnalyzer [.text "engines", .text row.1] row.2 = .ok s ∧
      IsLaidOver row.1 (saidOf engines row.1) (({} : Settings).engine row.1) s := by
    intro row mem
    obtain ⟨distinct, s, valid⟩ := saidOf_valid within blocks row.1
    obtain ⟨s, laidOver⟩ := valid.exists_over (({} : Settings).engine row.1)
    refine ⟨s, ?_, laidOver⟩
    rw [laid.said row mem, readAnalyzer_eq_ok]
    exact .overlay distinct (isLaidOver_defaultSaid row.1) laidOver
  obtain ⟨all, read, names, laidOver⟩ := exists_readEntries
    (P := fun name s => IsLaidOver name (saidOf engines name) (({} : Settings).engine name) s) rows taken
  refine ⟨all, ?_, names.trans laid.names, laidOver⟩
  rw [ofText_eq parsed, layered_map found folded]
  refine ofEntries_eq_map ((any_putEntry _ _ _).trans (any_withoutEngines es).symm) (read_eq_map ?_ ?_ ?_)
  · unfold readField
    rw [find?_putEntry_self]
    exact read
  · exact find?_withoutEngines_self es
  · intro name other
    rw [find?_withoutEngines_of_ne other, find?_putEntry_of_ne fun same => other (Value.text.inj same).symm]

/-- a settings file that names a new analyzer before one of the defaults, which gets another priority -/
def partialText : String :=
  "\x7b\"engines\": \x7b\"biome\": ~, \"eslint\": \x7b\"priority\": 7\x7d\x7d, \"top_files\": 3\x7d"

/-- what it says of analyzers -/
def partialEngines : List (Value × Value) :=
  [(.text "biome", .null), (.text "eslint", .map [(.text "priority", .int 7)])]

/-- the defaults come first, in their order, and all else is as without the analyzers -/
theorem load_layered_partial :
    Yaml.read (String.ofList (Text.unifyNewlines partialText.toList)) =
      .ok (.map [(.text "engines", .map partialEngines), (.text "top_files", .int 3)]) ∧
    (∀ entry ∈ partialEngines, IsBlock entry) ∧
    ∃ all, ofText partialText = (ofEntries [(.text "top_files", .int 3)]).map (fun s => { s with engines := all }) ∧
      all.map (·.1) = ["typescript", "eslint", "unused-exports", "biome"] := by
  have parsed : Yaml.read (String.ofList (Text.unifyNewlines partialText.toList)) =
      .ok (.map [(.text "engines", .map partialEngines), (.text "top_files", .int 3)]) := by
    cbv
  have blocks : ∀ entry ∈ partialEngines, IsBlock entry :=
    List.forall_mem_cons.mpr ⟨⟨rfl, .inl rfl, _, rfl⟩, List.forall_mem_singleton.mpr ⟨rfl, .inr rfl, _, rfl⟩⟩
  obtain ⟨all, same, names, -⟩ := (load_layered .empty ⟨.root, []⟩).2 partialText _ _ parsed rfl blocks
  exact ⟨parsed, blocks, all, same, names⟩

end Settings

end LintLedger
