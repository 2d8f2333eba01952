import LintLedger.Engine
import LintLedger.Proofs.Engine.Arrival
import LintLedger.Proofs.Engine.Turns
import LintLedger.Proofs.Order.Stable
import Mathlib

/-!
# The registry, its order and the roles of crossover

What some changes of a registry leave in it is told by the changes alone: an analyzer is left if nothing is done
about its name behind the change that adds it (`Leaves`), and its name holds its place since the change that added
it while nothing was left of that name (`Registers`).  One change after another keeps the registry in step with
this (`IsLeftBy.change`).  So the analyzers by priority are those that are left, of equal priority in the order of
their places, and the detector that an engine holds is the one for the analyzers that are left, in whatever order
analyzers were added, replaced and removed (`registry_in_step`).
-/

namespace LintLedger.Engine

/-! ### What changes leave in a registry -/

/-- the name that a change is about -/
def Change.name : Change → String
  | .add a => a.name
  | .remove name => name

variable {e : Engine} {a b : Analyzer} {as : List Analyzer} {changes : List Change} {c : Change} {name : String}
  {place : Nat}

/-- whether some changes leave an analyzer: one of them adds it, and none behind that is about its name -/
def Leaves (changes : List Change) (a : Analyzer) : Prop :=
  ∃ before after, changes = before ++ .add a :: after ∧ ∀ c ∈ after, c.name ≠ a.name

/-- whether some changes register a name at a place for good: the change there adds an analyzer of that name while
there was none, and the name is not removed behind it -/
structure Registers (changes : List Change) (name : String) (place : Nat) : Prop where
  added : ∃ a, changes[place]? = some (.add a) ∧ a.name = name
  new : ∀ a, Leaves (changes.take place) a → a.name ≠ name
  kept : .remove name ∉ changes.drop place

/-- the source of a role that is named: that of the analyzer of the name, if one is left, or else the built-in
source of the name, if there is one -/
inductive IsSourceOf (changes : List Change) (name : String) : Option Source → Prop
  | registered {a : Analyzer} (left : Leaves changes a) (same : a.name = name) :
      IsSourceOf changes name (some a.source)
  | builtIn {s : Source} (none : ∀ a, Leaves changes a → a.name ≠ name) (same : s.name = name) :
      IsSourceOf changes name (some s)
  | unknown (none : ∀ a, Leaves changes a → a.name ≠ name) (unknown : ∀ s : Source, s.name ≠ name) :
      IsSourceOf changes name Option.none

/-- one more change leaves what it adds, and of what was left all that it is not about -/
theorem leaves_concat : Leaves (changes ++ [c]) a ↔ c = .add a ∨ (c.name ≠ a.name ∧ Leaves changes a) := by
  constructor
  · rintro ⟨before, after, same, rest⟩
    rcases List.eq_nil_or_concat after with rfl | ⟨after, last, rfl⟩
    · exact .inl (List.cons.inj (List.append_inj' same rfl).2).1
    · rw [List.concat_eq_append] at same rest
      rw [← List.cons_append, ← List.append_assoc] at same
      obtain ⟨old, one⟩ := List.append_inj' same rfl
      obtain rfl := (List.cons.inj one).1
      refine .inr ⟨rest c (List.mem_append_right _ (List.mem_singleton_self c)), before, after, old, fun d hd => ?_⟩
      exact rest d (List.mem_append_left _ hd)
  · rintro (rfl | ⟨other, before, after, rfl, rest⟩)
    · exact ⟨changes, [], rfl, fun _ h => absurd h List.not_mem_nil⟩
    · refine ⟨before, after ++ [c], List.append_assoc .., fun d hd => ?_⟩
      rcases List.mem_append.mp hd with old | last
      · exact rest d old
      · exact List.mem_singleton.mp last ▸ other

theorem Registers.lt (h : Registers changes name place) : place < changes.length := by
  obtain ⟨a, added, -⟩ := h.added
  exact (List.getElem?_eq_some_iff.mp added).1

/-- a place is held through every change but the removal of its name -/
theorem Registers.concat (h : Registers changes name place) (other : c ≠ .remove name) :
    Registers (changes ++ [c]) name place := by
  have inside := h.lt
  refine ⟨?_, ?_, ?_⟩
  · rw [List.getElem?_append_left inside]
    exact h.added
  · rw [List.take_append_of_le_length inside.le]
    exact h.new
  · rw [List.drop_append_of_le_length inside.le, List.mem_append, List.mem_singleton, not_or]
    exact ⟨h.kept, other.symm⟩

/-- an analyzer whose name is new gets the last place -/
theorem registers_concat (new : ∀ b, Leaves changes b → b.name ≠ a.name) :
    Registers (changes ++ [.add a]) a.name changes.length := by
  refine ⟨⟨a, List.getElem?_concat_length, rfl⟩, ?_, ?_⟩
  · rw [List.take_left' rfl]
    exact new
  · rw [List.drop_left' rfl, List.mem_singleton]
    exact nofun

/-! ### Registries in step with their changes -/

/-- whether a name has its place before another -/
def IsEarlier (changes : List Change) (m n : String) : Prop :=
  ∃ i j, Registers changes m i ∧ Registers changes n j ∧ i < j

/-- whether a registry is what some changes leave, one analyzer of each name, in the order of their places -/
structure IsLeftBy (changes : List Change) (as : List Analyzer) : Prop where
  apart : (as.map (·.name)).Nodup
  mem : ∀ a, a ∈ as ↔ Leaves changes a
  placed : ∀ a ∈ as, ∃ place, Registers changes a.name place
  order : (as.map (·.name)).Pairwise (IsEarlier changes)

theorem isLeftBy_nil : IsLeftBy [] [] where
  apart := List.nodup_nil
  mem a := by
    refine iff_of_false List.not_mem_nil ?_
    rintro ⟨before, after, same, -⟩
    exact List.append_ne_nil_of_right_ne_nil before (List.cons_ne_nil _ after) same.symm
  placed _ h := absurd h List.not_mem_nil
  order := .nil

theorem IsEarlier.concat {m n : String} (h : IsEarlier changes m n) (left : c ≠ .remove m) (right : c ≠ .remove n) :
    IsEarlier (changes ++ [c]) m n := by
  obtain ⟨i, j, hi, hj, before⟩ := h
  exact ⟨i, j, hi.concat left, hj.concat right, before⟩

/-- an analyzer that is added stands in the registry with all others of other names -/
theorem mem_add_iff : b ∈ (e.add a).analyzers ↔ b = a ∨ (b.name ≠ a.name ∧ b ∈ e.analyzers) := by
  unfold add
  dsimp only
  split
  · rename_i known
    rw [List.mem_map]
    constructor
    · rintro ⟨d, hd, rfl⟩
      by_cases same : isNamed a.name d = true
      · exact .inl (if_pos same)
      · rw [if_neg same]
        exact .inr ⟨by simpa [isNamed] using same, hd⟩
    · rintro (rfl | ⟨other, hb⟩)
      · obtain ⟨d, hd, same⟩ := List.any_eq_true.mp known
        exact ⟨d, hd, if_pos same⟩
      · exact ⟨b, hb, if_neg (by simpa [isNamed] using other)⟩
  · rename_i fresh
    rw [List.mem_append, List.mem_singleton, or_comm]
    refine or_congr_right ⟨fun hb => ⟨fun same => fresh ?_, hb⟩, And.right⟩
    exact List.any_eq_true.mpr ⟨b, hb, by simpa [isNamed] using same⟩

/-- a removal leaves all analyzers of other names, whether there was one of the name or not -/
theorem analyzers_change_remove :
    (e.change (.remove name)).analyzers = e.analyzers.filter fun b => !isNamed name b := by
  unfold change remove?
  dsimp only
  split
  · rfl
  · rename_i fresh
    refine (List.filter_eq_self.mpr fun b hb => ?_).symm
    have other : ¬isNamed name b = true := fun same => fresh (List.any_eq_true.mpr ⟨b, hb, same⟩)
    simpa using other

theorem settings_change : (e.change c).settings = e.settings := by
  cases c with
  | add a => rfl
  | remove name =>
    unfold change remove?
    dsimp only
    split <;> rfl

theorem IsLeftBy.add (h : IsLeftBy changes e.analyzers) : IsLeftBy (changes ++ [.add a]) (e.add a).analyzers := by
  have mem (b : Analyzer) : b ∈ (e.add a).analyzers ↔ Leaves (changes ++ [.add a]) b := by
    rw [mem_add_iff, leaves_concat, h.mem b, Change.add.injEq, eq_comm (a := a)]
    exact or_congr_right (and_congr_left fun _ => ne_comm)
  have apart := (foldl_add [a] h.apart).1
  have older := h.order.imp fun {m n} earlier => earlier.concat (c := .add a) nofun nofun
  by_cases known : a.name ∈ e.analyzers.map (·.name)
  · have names : (e.add a).analyzers.map (·.name) = e.analyzers.map (·.name) := by rw [names_add, if_pos known]
    refine ⟨apart, mem, fun b hb => ?_, names ▸ older⟩
    have old : b.name ∈ e.analyzers.map (·.name) := names ▸ List.mem_map_of_mem hb
    obtain ⟨d, hd, same⟩ := List.mem_map.mp old
    obtain ⟨place, held⟩ := h.placed d hd
    rw [same] at held
    exact ⟨place, held.concat nofun⟩
  · have names : (e.add a).analyzers.map (·.name) = e.analyzers.map (·.name) ++ [a.name] := by
      rw [names_add, if_neg known]
    have last : Registers (changes ++ [.add a]) a.name changes.length := registers_concat fun b left same =>
      known (same ▸ List.mem_map_of_mem ((h.mem b).mpr left))
    refine ⟨apart, mem, fun b hb => ?_, ?_⟩
    · rcases mem_add_iff.mp hb with rfl | ⟨-, old⟩
      · exact ⟨_, last⟩
      · obtain ⟨place, held⟩ := h.placed b old
        exact ⟨place, held.concat nofun⟩
    · rw [names, List.pairwise_append]
      refine ⟨older, List.pairwise_singleton _ _, fun m hm n hn => ?_⟩
      obtain ⟨b, hb, rfl⟩ := List.mem_map.mp hm
      obtain ⟨place, held⟩ := h.placed b hb
      exact List.mem_singleton.mp hn ▸ ⟨place, _, held.concat nofun, last, held.lt⟩

theorem IsLeftBy.remove (h : IsLeftBy changes e.analyzers) :
    IsLeftBy (changes ++ [.remove name]) (e.change (.remove name)).analyzers := by
  rw [analyzers_change_remove]
  have other {b : Analyzer} (hb : b ∈ e.analyzers.filter fun b => !isNamed name b) : name ≠ b.name := by
    have kept := (List.mem_filter.mp hb).2
    exact fun same => by simp [isNamed, same] at kept
  refine ⟨h.apart.sublist (List.filter_sublist.map _), fun b => ?_, fun b hb => ?_, ?_⟩
  · have apart : Change.remove name ≠ .add b := Change.noConfusion
    rw [leaves_concat, ← h.mem b, List.mem_filter, and_comm, or_iff_right apart]
    refine and_congr_left fun _ => ?_
    simp [isNamed, Change.name, eq_comm (a := name)]
  · obtain ⟨place, held⟩ := h.placed b (List.mem_of_mem_filter hb)
    exact ⟨place, held.concat fun same => other hb (Change.remove.inj same)⟩
  · refine (h.order.sublist (List.filter_sublist.map _)).imp_of_mem fun {m n} hm hn earlier => ?_
    obtain ⟨b, hb, rfl⟩ := List.mem_map.mp hm
    obtain ⟨d, hd, rfl⟩ := List.mem_map.mp hn
    exact earlier.concat (fun same => other hb (Change.remove.inj same)) fun same => other hd (Change.remove.inj same)

/-- **One change keeps a registry in step.** -/
theorem IsLeftBy.change (h : IsLeftBy changes e.analyzers) (c : Change) :
    IsLeftBy (changes ++ [c]) (e.change c).analyzers := by
  cases c with
  | add a => exact h.add
  | remove name => exact h.remove

/-- so a registry is in step after all changes since it was empty -/
theorem isLeftBy_foldl (empty : e.analyzers = []) (changes : List Change) :
    IsLeftBy changes (changes.foldl (fun e c => e.change c) e).analyzers := by
  induction changes using List.reverseRecOn with
  | nil => exact empty ▸ isLeftBy_nil
  | append_singleton changes c ih =>
    rw [List.foldl_concat]
    exact ih.change c

theorem settings_foldl (changes : List Change) :
    (changes.foldl (fun e c => e.change c) e).settings = e.settings := by
  induction changes generalizing e with
  | nil => rfl
  | cons c rest ih => exact ih.trans settings_change

/-! ### What follows for the order and the roles -/

/-- the analyzers by priority are those of the registry, and of equal priority they keep their places -/
theorem IsLeftBy.pairwise_byPriority (h : IsLeftBy changes as) :
    (byPriority as).Pairwise fun a b => a.settings.priority < b.settings.priority ∨
      (a.settings.priority = b.settings.priority ∧ IsEarlier changes a.name b.name) := by
  let le (a b : Analyzer) : Bool := a.settings.priority ≤ b.settings.priority
  have trans (a b c : Analyzer) (ab : le a b = true) (bc : le b c = true) : le a c = true := by
    rw [decide_eq_true_eq] at *
    exact ab.trans bc
  have total (a b : Analyzer) : (le a b || le b a) = true := by
    rw [Bool.or_eq_true, decide_eq_true_eq, decide_eq_true_eq]
    exact Int.le_total _ _
  have sorted := Order.pairwise_mergeSort_stable trans total (List.pairwise_map.mp h.order)
  refine sorted.imp fun {a b} both => ?_
  obtain ⟨le, earlier⟩ := both
  rw [decide_eq_true_eq] at le earlier
  rcases le.lt_or_eq with less | same
  · exact .inl less
  · exact .inr ⟨same, earlier same.ge⟩

/-- a role that is named goes to the source of the analyzer that is left of the name -/
theorem IsLeftBy.isSourceOf (h : IsLeftBy changes as) (name : String) :
    IsSourceOf changes name (Crossover.sourceOf (as.map fun a => (a.name, a.source)) name) := by
  have apart : ((as.map fun a => (a.name, a.source)).reverse.map Prod.fst).Nodup := by
    rw [List.map_reverse, List.nodup_reverse, List.map_map]
    exact h.apart
  unfold Crossover.sourceOf
  split
  · rename_i source found
    rw [lookup_eq_some_iff apart, List.mem_reverse] at found
    obtain ⟨a, ha, same⟩ := List.mem_map.mp found
    cases same
    exact .registered ((h.mem a).mp ha) rfl
  · rename_i missing
    have none (a : Analyzer) (left : Leaves changes a) : a.name ≠ name := by
      rintro rfl
      have entry : (a.name, a.source) ∈ (as.map fun a => (a.name, a.source)).reverse :=
        List.mem_reverse.mpr (List.mem_map_of_mem (f := fun a => (a.name, a.source)) ((h.mem a).mpr left))
      rw [(lookup_eq_some_iff apart).mpr entry] at missing
      cases missing
    cases known : Source.ofName? name with
    | some s => exact .builtIn none (by simpa using List.find?_some known)
    | none =>
      refine .unknown none fun s same => ?_
      have listed : s ∈ Source.all := by cases s <;> decide
      exact List.find?_eq_none.mp known s listed (by simpa using same)

namespace Equipped

variable {x : Equipped}

theorem engine_change : (x.change c).engine = x.engine.change c := by
  cases c with
  | add a => rfl
  | remove name =>
    unfold change remove? Engine.change
    dsimp only
    cases x.engine.remove? name <;> rfl

/-- whatever changes the registry makes the detector anew -/
theorem crossover_change (held : x.crossover = x.engine.detector) :
    (x.change c).crossover = (x.change c).engine.detector := by
  cases c with
  | add a => rfl
  | remove name =>
    unfold change remove?
    dsimp only
    cases x.engine.remove? name with
    | none => exact held
    | some e => rfl

theorem changed_engine (changes : List Change) :
    (x.changed changes).engine = changes.foldl (fun e c => e.change c) x.engine := by
  induction changes generalizing x with
  | nil => rfl
  | cons c rest ih => exact ih.trans (by rw [engine_change]; rfl)

theorem crossover_changed (held : x.crossover = x.engine.detector) (changes : List Change) :
    (x.changed changes).crossover = (x.changed changes).engine.detector := by
  induction changes generalizing x with
  | nil => exact held
  | cons c rest ih => exact ih (crossover_change held)

/-- building an engine adds its analyzers one after another -/
theorem engine_of (settings : Settings) (w : Analyzer.Workspace) (keeping : Option StoreSettings)
    (as : List Analyzer) : (of settings w keeping as).engine =
      (as.map Change.add).foldl (fun e c => e.change c) ⟨settings, w, keeping, []⟩ := by
  rw [List.foldl_map]
  rfl

/-- **The registry, its order and the roles of crossover stay in step.** Take an engine that is built of any
analyzers and then changed in any way, and all these changes one after the other.  The analyzers by priority are
those that the changes leave, one of each name; of equal priority the one comes first whose name has its place
first, which it has since it was added while there was none of it.  The detector that the engine holds is the one
that it would make now; it takes for the type analyzer and for the linter the sources of the analyzers of those
names that are left, or else the built-in sources of those names, or else none. -/
theorem registry_in_step (settings : Settings) (w : Analyzer.Workspace) (keeping : Option StoreSettings)
    (analyzers : List Analyzer) (changes : List Change) :
    let all := analyzers.map Change.add ++ changes
    let x := (of settings w keeping analyzers).changed changes
    ((x.engine.ordered.map (·.name)).Nodup ∧ (∀ a, a ∈ x.engine.ordered ↔ Leaves all a) ∧
      x.engine.ordered.Pairwise fun a b => a.settings.priority < b.settings.priority ∨
        (a.settings.priority = b.settings.priority ∧
          ∃ i j, Registers all a.name i ∧ Registers all b.name j ∧ i < j)) ∧
    x.crossover = x.engine.detector ∧ x.crossover.settings = settings.crossover ∧
      IsSourceOf all settings.crossover.typeEngine x.crossover.typeSource ∧
      IsSourceOf all settings.crossover.lintEngine x.crossover.lintSource := by
  intro all x
  have engine : x.engine = all.foldl (fun e c => e.change c) ⟨settings, w, keeping, []⟩ := by
    rw [List.foldl_append, ← engine_of]
    exact changed_engine changes
  have left : IsLeftBy all x.engine.analyzers := engine ▸ isLeftBy_foldl rfl all
  have same : x.engine.settings = settings := engine ▸ settings_foldl all
  have held : x.crossover = x.engine.detector := crossover_changed rfl changes
  refine ⟨⟨nodup_ordered left.apart, fun a => ?_, left.pairwise_byPriority⟩, held, ?_, ?_, ?_⟩
  · exact List.mem_mergeSort.trans (left.mem a)
  · rw [held]
    exact congrArg Settings.crossover same
  · rw [held, ← same]
    exact left.isSourceOf _
  · rw [held, ← same]
    exact left.isSourceOf _

/-- an analyzer of custom source that finds nothing -/
def idleNamed (name : String) : Analyzer := ⟨name, .custom, .default, .outside (.finds []) none⟩

/-- what is added again keeps its place, and what was removed before comes last -/
example : (((of {} ⟨⟨.root, ["p"]⟩, .empty⟩ none (["a", "b", "c"].map idleNamed)).changed
    [.add (idleNamed "b"), .remove "a", .add (idleNamed "a"), .remove "d"]).engine.analyzers.map (·.name)) =
      ["b", "c", "a"] := by
  decide

end Equipped

end LintLedger.Engine
