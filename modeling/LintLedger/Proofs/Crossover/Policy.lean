import LintLedger.Proofs.Crossover.Overlap
import LintLedger.Proofs.Order.Comparisons
import Mathlib

/-!
# When a batch is failed

A batch is failed over one warning only, that of lint rules that need types (`critical_analyze`).  It names the
rules and the files of all findings of the linter with such rules, each once, in the order in which the batch
shows them (`typeAwareWarnings_cases`, `lists_files`).  So which batches are failed can be told without the
detector (`policy_exact`), as long as the time of the linter can be rounded: the warning of a slow linter is
worded last, and if it cannot be, nothing is told at all.
-/

namespace LintLedger

open Outcome

/-! ### Things in the order in which items show them -/

section Shows

variable {α β : Type}

/-- whether some things are listed once each, in the order in which items show them first -/
structure Lists (shows : α → β → Prop) (items : List α) (listed : List β) : Prop where
  members : ∀ b, b ∈ listed ↔ ∃ a ∈ items, shows a b
  order : listed.Pairwise fun b c =>
    ∃ front a back, items = front ++ a :: back ∧ shows a b ∧ ∀ x ∈ front ++ [a], ¬shows x c

/-- what each item shows, if it shows one thing at most, is listed if each thing is kept once -/
theorem lists_distinct [DecidableEq β] (f : α → Option β) (items : List α) :
    Lists (fun a b => f a = some b) items (distinct (items.filterMap f)) := by
  induction items using List.reverseRecOn with
  | nil => exact ⟨fun b => by simp [distinct, distinctBy], .nil⟩
  | append_singleton items a ih =>
    refine ⟨fun b => by simp [mem_distinct, List.mem_filterMap], ?_⟩
    have before : (distinct (items.filterMap f)).Pairwise fun b c =>
        ∃ front x back, items ++ [a] = front ++ x :: back ∧ f x = some b ∧ ∀ y ∈ front ++ [x], ¬f y = some c := by
      refine ih.order.imp ?_
      rintro b c ⟨front, x, back, whole, first, later⟩
      exact ⟨front, x, back ++ [a], by rw [whole]; simp, first, later⟩
    rw [List.filterMap_append]
    cases own : f a with
    | none =>
      rw [List.filterMap_cons_none own, List.filterMap_nil, List.append_nil]
      exact before
    | some c =>
      rw [List.filterMap_cons_some own, List.filterMap_nil]
      unfold distinct at before ⊢
      rw [distinctBy_concat, List.map_id, id_eq]
      by_cases shown : c ∈ items.filterMap f
      · rw [if_pos shown, List.append_nil]
        exact before
      · -- what comes last has not been shown up to where the others were shown first
        rw [if_neg shown, List.pairwise_append]
        refine ⟨before, List.pairwise_singleton .., fun b hb d hd => ?_⟩
        obtain rfl := List.mem_singleton.mp hd
        obtain ⟨x, hx, first⟩ := (ih.members b).mp hb
        obtain ⟨front, back, whole⟩ := List.append_of_mem hx
        refine ⟨front, x, back ++ [a], by rw [whole]; simp, first, fun y hy same => shown ?_⟩
        refine List.mem_filterMap.mpr ⟨y, ?_, same⟩
        rw [whole, ← List.singleton_append, ← List.append_assoc]
        exact List.mem_append_left back hy

theorem Lists.congr {shows shows' : α → β → Prop} {items : List α} {listed : List β}
    (same : ∀ a b, shows a b ↔ shows' a b) (h : Lists shows items listed) : Lists shows' items listed := by
  obtain rfl : shows = shows' := funext fun a => funext fun b => propext (same a b)
  exact h

end Shows

namespace Crossover

variable {d : Detector} {lint : Source} {vs : List Violation} {v : Violation} {ws : List Warning} {w : Warning}
  {reports : List Report} {rule : String}

/-! ### Findings with rules that need types -/

/-- whether a finding is one of the linter and bears a rule, which needs types -/
structure Bears (lint : Source) (v : Violation) (rule : String) : Prop where
  source : v.source = .known lint
  named : v.rule = .text rule
  aware : rule ∈ Catalog.typeAwareRules

/-- the rule that needs types, if a finding of the linter bears one -/
def ruleOf (lint : Source) (v : Violation) : Option String :=
  match v.rule with
  | .text rule => if v.source.isClass lint && Catalog.isTypeAware rule then some rule else none
  | _ => none

theorem ruleOf_eq_some_iff : ruleOf lint v = some rule ↔ Bears lint v rule := by
  have aware : Catalog.isTypeAware rule = true ↔ rule ∈ Catalog.typeAwareRules := List.contains_iff_mem
  unfold ruleOf
  constructor
  · intro h
    split at h
    · rename_i own named
      split at h
      · rename_i both
        cases h
        rw [Bool.and_eq_true, Label.isClass_eq_true_iff, aware] at both
        exact ⟨both.1, named, both.2⟩
      · cases h
    · cases h
  · rintro ⟨source, named, listed⟩
    rw [named]
    dsimp only
    rw [if_pos (Bool.and_eq_true _ _ ▸ ⟨Label.isClass_eq_true_iff.mpr source, aware.mpr listed⟩)]

/-- the file of a finding of the linter that bears a rule that needs types -/
def fileOf (lint : Source) (v : Violation) : Option String :=
  match v.file with
  | .text file => (ruleOf lint v).map fun _ => file
  | _ => none

theorem fileOf_eq_some_iff {file : String} :
    fileOf lint v = some file ↔ (∃ rule, Bears lint v rule) ∧ v.file = .text file := by
  simp only [← ruleOf_eq_some_iff]
  unfold fileOf
  split
  · rename_i own
    rw [own, Option.map_eq_some_iff]
    simp
  · rename_i other
    exact iff_of_false nofun fun h => other file h.2

/-- the findings of the linter that bear a rule that needs types -/
def hitsOf (lint : Source) (vs : List Violation) : List Violation := vs.filter fun v => (ruleOf lint v).isSome

theorem isHit_iff : IsHit lint v ↔ ∃ rule, Bears lint v rule := by
  constructor
  · rintro ⟨source, aware⟩
    obtain ⟨rule, named, listed⟩ := hasTypeAwareRule_eq_ok_true_iff.mp aware
    exact ⟨rule, Label.isClass_eq_true_iff.mp source, named, List.contains_iff_mem.mp listed⟩
  · rintro ⟨rule, source, named, listed⟩
    refine ⟨Label.isClass_eq_true_iff.mpr source, ?_⟩
    exact hasTypeAwareRule_eq_ok_true_iff.mpr ⟨rule, named, List.contains_iff_mem.mpr listed⟩

theorem isSome_ruleOf_iff : (ruleOf lint v).isSome = true ↔ IsHit lint v := by
  rw [isHit_iff, Option.isSome_iff_exists]
  simp only [ruleOf_eq_some_iff]

theorem typeAwareHits_eq_ok_iff {hits : List Violation} : typeAwareHits lint vs = .ok hits ↔
    (∀ v ∈ vs, v.source = .known lint → ∃ b, hasTypeAwareRule v = .ok b) ∧ hits = hitsOf lint vs := by
  have same : ∀ v b, (if v.source.isClass lint then hasTypeAwareRule v else .ok false) = .ok b →
      b = (ruleOf lint v).isSome := by
    intro v b h
    rw [Bool.eq_iff_iff, isSome_ruleOf_iff]
    split at h
    · rename_i own
      constructor
      · rintro rfl
        exact ⟨own, h⟩
      · exact fun hit => Except.ok.inj (h.symm.trans hit.rule)
    · rename_i other
      cases h
      exact iff_of_false Bool.false_ne_true fun hit => other hit.source
  refine (filterM_eq_ok_iff same).trans (and_congr_left' (forall₂_congr fun v _ => ?_))
  by_cases own : v.source.isClass lint = true
  · rw [if_pos own]
    exact ⟨fun h _ => h, fun h => h (Label.isClass_eq_true_iff.mp own)⟩
  · rw [if_neg own]
    exact ⟨fun _ source => absurd (Label.isClass_eq_true_iff.mpr source) own, fun _ => ⟨false, rfl⟩⟩

theorem map_rule_hitsOf : (hitsOf lint vs).map (·.rule) = (vs.filterMap (ruleOf lint)).map .text := by
  induction vs with
  | nil => rfl
  | cons v vs ih =>
    unfold hitsOf at ih ⊢
    cases own : ruleOf lint v with
    | none => rw [List.filter_cons_of_neg (by simp [own]), List.filterMap_cons_none own, ih]
    | some rule =>
      rw [List.filter_cons_of_pos (by simp [own]), List.filterMap_cons_some own, List.map_cons, List.map_cons, ih,
        (ruleOf_eq_some_iff.mp own).named]

theorem map_file_hitsOf (texts : ∀ v ∈ hitsOf lint vs, ∃ file, v.file = .text file) :
    (hitsOf lint vs).map (·.file) = (vs.filterMap (fileOf lint)).map .text := by
  induction vs with
  | nil => rfl
  | cons v vs ih =>
    unfold hitsOf at ih texts ⊢
    cases own : ruleOf lint v with
    | none =>
      have none : fileOf lint v = none := by
        rw [Option.eq_none_iff_forall_ne_some]
        intro file h
        obtain ⟨⟨rule, bears⟩, -⟩ := fileOf_eq_some_iff.mp h
        rw [ruleOf_eq_some_iff.mpr bears] at own
        cases own
      rw [List.filter_cons_of_neg (by simp [own])] at texts ⊢
      rw [List.filterMap_cons_none none, ih texts]
    | some rule =>
      rw [List.filter_cons_of_pos (by simp [own]), List.forall_mem_cons] at texts
      obtain ⟨⟨file, hfile⟩, texts⟩ := texts
      have some : fileOf lint v = .some file :=
        fileOf_eq_some_iff.mpr ⟨⟨rule, ruleOf_eq_some_iff.mp own⟩, hfile⟩
      rw [List.filter_cons_of_pos (by simp [own]), List.filterMap_cons_some some, List.map_cons, List.map_cons,
        ih texts, hfile]

/-! ### The warning of rules that need types -/

theorem distinctBy_texts (texts : List String) :
    distinctBy Value.key? (texts.map .text) = (distinct texts).map .text := by
  rw [distinctBy_map]
  refine congrArg _ (distinctBy_congr fun s _ t _ => ?_)
  simp [Value.key?, Value.key, Except.toOption]

theorem text_injective : Function.Injective Value.text := fun _ _ => Value.text.inj

/-- whether a warning tells of the findings of the linter that bear rules that need types -/
structure TellsOf (lint : Source) (vs : List Violation) (w : Warning) : Prop where
  kind : w.kind = .typeAwareRule
  rules : Lists (Bears lint) vs w.rules
  files : ∃ files, w.files = files.map .text ∧
    Lists (fun v file => (∃ rule, Bears lint v rule) ∧ v.file = .text file) vs files

/-- whether a finding of the linter bears a rule that needs types and is of the gravest severity -/
def IsGrave (lint : Source) (v : Violation) : Prop := (∃ rule, Bears lint v rule) ∧ v.severity = .known .error

theorem mem_hitsOf : v ∈ hitsOf lint vs ↔ v ∈ vs ∧ ∃ rule, Bears lint v rule := by
  unfold hitsOf
  rw [List.mem_filter, isSome_ruleOf_iff, isHit_iff]

theorem any_isClass_hitsOf : ((hitsOf lint vs).any fun v => v.severity.isClass .error) = true ↔
    ∃ v ∈ vs, IsGrave lint v := by
  rw [List.any_eq_true]
  simp only [mem_hitsOf, Label.isClass_eq_true_iff, IsGrave, and_assoc]

/-- the warning in full, as far as its files have keys -/
theorem typeAwareWarnings_cases (source : d.lintSource = some lint) (h : typeAwareWarnings d vs = .ok ws) :
    (ws = [] ∧ ¬∃ v ∈ vs, ∃ rule, Bears lint v rule) ∨
      ∃ w, ws = [w] ∧ w.kind = .typeAwareRule ∧ Lists (Bears lint) vs w.rules ∧
        w.files = distinctBy Value.key? ((hitsOf lint vs).map (·.file)) ∧
        (w.severity = .error ↔ ∃ v ∈ vs, IsGrave lint v) := by
  unfold typeAwareWarnings at h
  rw [source] at h
  obtain ⟨hits, hhits, h⟩ := bind_eq_ok.mp h
  obtain ⟨-, rfl⟩ := typeAwareHits_eq_ok_iff.mp hhits
  split at h
  · rename_i none
    cases h
    refine .inl ⟨rfl, ?_⟩
    rintro ⟨v, hv, bears⟩
    have mem := mem_hitsOf.mpr ⟨hv, bears⟩
    rw [List.isEmpty_iff.mp none] at mem
    cases mem
  · obtain ⟨shown, hshown, h⟩ := bind_eq_ok.mp h
    obtain ⟨rules, hrules, h⟩ := bind_eq_ok.mp h
    obtain ⟨files, hfiles, h⟩ := bind_eq_ok.mp h
    cases h
    obtain ⟨-, rfl⟩ := distinctValues_eq_ok_iff.mp hshown
    obtain ⟨-, rfl⟩ := distinctValues_eq_ok_iff.mp hfiles
    have own : rules = distinct (vs.filterMap (ruleOf lint)) := by
      have texts := eq_map_of_joinTexts hrules
      rw [map_rule_hitsOf, distinctBy_texts] at texts
      exact (List.map_injective_iff.mpr text_injective texts).symm
    refine .inr ⟨_, rfl, rfl, ?_, rfl, ?_⟩
    · rw [own]
      exact (lists_distinct (ruleOf lint) vs).congr fun v rule => ruleOf_eq_some_iff
    · rw [← any_isClass_hitsOf]
      dsimp only
      split
      · rename_i grave
        exact iff_of_true rfl grave
      · rename_i minor
        exact iff_of_false (by decide) minor

/-- of findings in files that are told by texts it tells these files -/
theorem lists_files (texts : ∀ v ∈ hitsOf lint vs, ∃ file, v.file = .text file) :
    ∃ files, distinctBy Value.key? ((hitsOf lint vs).map (·.file)) = files.map .text ∧
      Lists (fun v file => (∃ rule, Bears lint v rule) ∧ v.file = .text file) vs files := by
  refine ⟨distinct (vs.filterMap (fileOf lint)), ?_, ?_⟩
  · rw [map_file_hitsOf texts, distinctBy_texts]
  · exact (lists_distinct (fileOf lint) vs).congr fun v file => fileOf_eq_some_iff

/-! ### Batches that can be read -/

/-- whether a finding has a text for its file, a number for its line, and a text or nothing for its rule -/
structure IsLegible (v : Violation) : Prop where
  file : ∃ file, v.file = .text file
  line : ∃ line, v.line = .int line
  rule : v.rule = .null ∨ ∃ rule, v.rule = .text rule

theorem joinTexts_texts (position : ℕ) (texts : List String) : joinTexts position (texts.map .text) = .ok texts := by
  induction texts generalizing position with
  | nil => rfl
  | cons s texts ih =>
    rw [List.map_cons, joinTexts, ih]
    rfl

theorem exists_texts {values : List Value} (all : ∀ value ∈ values, ∃ s, value = .text s) :
    ∃ texts : List String, values = texts.map .text := by
  induction values with
  | nil => exact ⟨[], rfl⟩
  | cons value values ih =>
    rw [List.forall_mem_cons] at all
    obtain ⟨⟨s, rfl⟩, all⟩ := all
    obtain ⟨texts, rfl⟩ := ih all
    exact ⟨s :: texts, rfl⟩

/-- texts can be taken once each, and they are texts still -/
theorem exists_distinctValues (values : List Value) (all : ∀ value ∈ values, ∃ s, value = .text s) :
    ∃ texts : List String, distinctValues values = .ok (texts.map .text) := by
  obtain ⟨texts, rfl⟩ := exists_texts all
  refine ⟨distinct texts, distinctValues_eq_ok_iff.mpr ⟨fun value hvalue => ?_, (distinctBy_texts texts).symm⟩⟩
  obtain ⟨s, rfl⟩ := all value hvalue
  exact ⟨_, rfl⟩

theorem exists_hasTypeAwareRule (legible : IsLegible v) : ∃ b, hasTypeAwareRule v = .ok b := by
  unfold hasTypeAwareRule
  rcases legible.rule with none | ⟨rule, named⟩
  · rw [none]
    exact ⟨false, rfl⟩
  · rw [named]
    split
    · exact ⟨_, rfl⟩
    · exact ⟨false, rfl⟩

theorem exists_typeAwareWarnings (d : Detector) (legible : ∀ v ∈ vs, IsLegible v) :
    ∃ ws, typeAwareWarnings d vs = .ok ws := by
  unfold typeAwareWarnings
  cases source : d.lintSource with
  | none => exact ⟨[], rfl⟩
  | some lint =>
    have hits : typeAwareHits lint vs = .ok (hitsOf lint vs) :=
      typeAwareHits_eq_ok_iff.mpr ⟨fun v hv _ => exists_hasTypeAwareRule (legible v hv), rfl⟩
    obtain ⟨rules, hrules⟩ := exists_distinctValues ((hitsOf lint vs).map (·.rule)) fun value hvalue => by
      rw [map_rule_hitsOf] at hvalue
      obtain ⟨rule, -, rfl⟩ := List.mem_map.mp hvalue
      exact ⟨rule, rfl⟩
    obtain ⟨files, hfiles⟩ := exists_distinctValues ((hitsOf lint vs).map (·.file)) fun value hvalue => by
      obtain ⟨v, hv, rfl⟩ := List.mem_map.mp hvalue
      exact (legible v (mem_hitsOf.mp hv).1).file
    dsimp only
    rw [hits, ok_bind]
    split
    · exact ⟨[], rfl⟩
    · rw [hrules, ok_bind, joinTexts_texts, ok_bind, hfiles]
      exact ⟨_, rfl⟩

theorem IsLegible.exists_standsAt (legible : IsLegible v) : ∃ s, StandsAt v s := by
  obtain ⟨file, hfile⟩ := legible.file
  obtain ⟨line, hline⟩ := legible.line
  exact ⟨⟨.text file, .number line⟩, by rw [hfile]; rfl, by rw [hline]; rfl⟩

theorem exists_duplicates (d : Detector) (legible : ∀ v ∈ vs, IsLegible v) : ∃ ws, duplicateWarnings d vs = .ok ws := by
  cases types : d.typeSource with
  | none =>
    unfold duplicateWarnings
    rw [types]
    exact ⟨[], rfl⟩
  | some type =>
    cases lints : d.lintSource with
    | none =>
      unfold duplicateWarnings
      rw [types, lints]
      exact ⟨[], rfl⟩
    | some lint =>
      by_cases same : type = lint
      · unfold duplicateWarnings
        rw [types, lints]
        dsimp only
        rw [if_pos same]
        exact ⟨[], rfl⟩
      · have placed : ∀ v ∈ ofEither type lint vs, ∃ s, StandsAt v s := fun v hv =>
          (legible v (mem_ofEither.mp hv).1).exists_standsAt
        obtain ⟨ws, told, -⟩ := exists_duplicateWarnings ⟨types, lints, same⟩ placed
        exact ⟨ws, told⟩

theorem exists_legacyWarnings (legible : ∀ v ∈ vs, IsLegible v) : ∃ ws, legacyWarnings vs = .ok ws := by
  unfold legacyWarnings
  dsimp only
  split
  · exact ⟨[], rfl⟩
  · obtain ⟨rules, hrules⟩ := exists_distinctValues
        (((vs.filter fun v => v.category.isClass .legacyTypeRule).map (·.rule)).filter (·.truthy))
        fun value hvalue => by
      obtain ⟨mem, truthy⟩ := List.mem_filter.mp hvalue
      obtain ⟨v, hv, rfl⟩ := List.mem_map.mp mem
      rcases (legible v (List.mem_filter.mp hv).1).rule with none | some
      · rw [none] at truthy
        cases truthy
      · exact some
    obtain ⟨files, hfiles⟩ := exists_distinctValues
        ((vs.filter fun v => v.category.isClass .legacyTypeRule).map (·.file)) fun value hvalue => by
      obtain ⟨v, hv, rfl⟩ := List.mem_map.mp hvalue
      exact (legible v (List.mem_filter.mp hv).1).file
    rw [hrules, ok_bind, joinTexts_texts, ok_bind, hfiles]
    exact ⟨_, rfl⟩

/-- whether the time of the linter is too long and cannot be rounded, as it is no finite number -/
def Stalls (d : Detector) (reports : List Report) (f : Fault) : Prop :=
  (lintTime d reports).isAbove d.settings.slowThreshold = true ∧ (lintTime d reports).rounded = .error f

theorem slowWarnings_of_stalls {f : Fault} (stalls : Stalls d reports f) : slowWarnings d reports = .error f := by
  unfold slowWarnings
  dsimp only
  rw [stalls.1, stalls.2]
  rfl

theorem exists_slowWarnings (timed : ∀ f, ¬Stalls d reports f) : ∃ ws, slowWarnings d reports = .ok ws := by
  unfold slowWarnings
  dsimp only
  cases above : (lintTime d reports).isAbove d.settings.slowThreshold with
  | false => exact ⟨[], rfl⟩
  | true =>
    cases rounded : (lintTime d reports).rounded with
    | error f => exact absurd ⟨above, rounded⟩ (timed f)
    | ok seconds => exact ⟨_, rfl⟩

/-- of a batch that can be read the detector tells something, unless the time of the linter cannot be rounded -/
theorem analyze_of_legible (enabled : d.settings.enabled = true) (legible : ∀ v ∈ vs, IsLegible v) :
    (∀ f, Stalls d reports f → d.analyze vs reports = .error f) ∧
      ((∀ f, ¬Stalls d reports f) → ∃ ws, d.analyze vs reports = .ok ws) := by
  obtain ⟨aware, haware⟩ : ∃ ws,
      (if d.settings.warnOnTypeAwareRules then typeAwareWarnings d vs else pure []) = .ok ws := by
    split
    · exact exists_typeAwareWarnings d legible
    · exact ⟨[], rfl⟩
  obtain ⟨duplicate, hduplicate⟩ : ∃ ws,
      (if d.settings.warnOnDuplicates then duplicateWarnings d vs else pure []) = .ok ws := by
    split
    · exact exists_duplicates d legible
    · exact ⟨[], rfl⟩
  obtain ⟨legacy, hlegacy⟩ := exists_legacyWarnings legible
  rw [analyze_eq enabled, haware, hduplicate, hlegacy, ok_bind, ok_bind, ok_bind]
  constructor
  · intro f stalls
    rw [slowWarnings_of_stalls stalls]
    rfl
  · intro timed
    obtain ⟨slow, hslow⟩ := exists_slowWarnings timed
    rw [hslow]
    exact ⟨_, rfl⟩

/-! ### The wording of a failure -/

theorem exists_policyMessage (texts : ∀ w ∈ ws, ∀ file ∈ w.files, ∃ s, file = .text s) :
    ∃ message, policyMessage ws = .ok message := by
  obtain ⟨files, hfiles⟩ := exists_distinctValues (ws.flatMap (·.files)) fun file hfile => by
    obtain ⟨w, hw, mem⟩ := List.mem_flatMap.mp hfile
    exact texts w hw file mem
  have compared : Order.Answers Value.before (files.map .text) := by
    intro a ha b hb
    obtain ⟨s, -, rfl⟩ := List.mem_map.mp ha
    obtain ⟨t, -, rfl⟩ := List.mem_map.mp hb
    exact ⟨decide (s < t), by unfold Value.before; rfl⟩
  unfold policyMessage sortFiles
  rw [hfiles, ok_bind, Order.firstFailure?_eq_none compared]
  dsimp only
  rw [joinTexts_texts]
  exact ⟨_, rfl⟩

/-- a failure is worded only if the files that are told are texts -/
theorem texts_of_policyMessage {message : String} (h : policyMessage ws = .ok message) :
    ∀ w ∈ ws, ∀ file ∈ w.files, ∃ s, file = .text s := by
  intro w hw file hfile
  obtain ⟨sorted, sorts, -⟩ := bind_eq_ok.mp h
  obtain ⟨shown, hshown, sorts⟩ := bind_eq_ok.mp sorts
  split at sorts
  · cases sorts
  · obtain ⟨texts, joined, -⟩ := map_eq_ok.mp sorts
    obtain ⟨-, rfl⟩ := distinctValues_eq_ok_iff.mp hshown
    obtain ⟨value, kept, same⟩ : ∃ value ∈ distinctBy Value.key? (ws.flatMap (·.files)), value.key? = file.key? :=
      exists_mem_distinctBy (List.mem_flatMap.mpr ⟨w, hw, hfile⟩)
    rw [eq_map_of_joinTexts joined] at kept
    obtain ⟨s, -, rfl⟩ := List.mem_map.mp kept
    exact ⟨s, Value.eq_text_of_key (eq_ok_of_toOption same.symm)⟩

/-! ### The policy -/

theorem critical_append {others : List Warning} (minor : ∀ w ∈ others, w.severity = .warn) :
    critical (ws ++ others) = critical ws := by
  have none : critical others = [] := List.filter_eq_nil_iff.mpr fun w hw => by simp [minor w hw]
  unfold critical at none ⊢
  rw [List.filter_append, none, List.append_nil]

/-- what the detector tells of a batch, and the policy on that -/
def Detector.police (d : Detector) (vs : List Violation) (reports : List Report) : Except Failure Unit := do
  let ws ← orFail (d.analyze vs reports)
  d.enforce ws

/-- whether a detector has to tell of a batch that a finding of the linter is grave -/
structure Alarms (d : Detector) (vs : List Violation) : Prop where
  enabled : d.settings.enabled = true
  warns : d.settings.warnOnTypeAwareRules = true
  grave : ∃ lint, d.lintSource = some lint ∧ ∃ v ∈ vs, IsGrave lint v

/-- the grave warnings about a batch: one if a finding of the linter is grave, and this is asked for, else none -/
theorem critical_analyze (h : d.analyze vs reports = .ok ws) :
    (critical ws = [] ∧ ¬Alarms d vs) ∨
      (Alarms d vs ∧ ∃ lint w, d.lintSource = some lint ∧ critical ws = [w] ∧ w.severity = .error ∧
        w.kind = .typeAwareRule ∧ Lists (Bears lint) vs w.rules ∧
        w.files = distinctBy Value.key? ((hitsOf lint vs).map (·.file))) := by
  obtain ⟨aware, others, rfl, minor, told, asked⟩ := analyze_eq_ok h
  rw [critical_append minor]
  by_cases grave : critical aware = []
  · refine .inl ⟨grave, ?_⟩
    rintro ⟨enabled, warns, lint, source, own⟩
    rcases typeAwareWarnings_cases source (asked enabled warns) with ⟨-, none⟩ | ⟨w, rfl, -, -, -, severity⟩
    · obtain ⟨v, hv, bears, -⟩ := own
      exact none ⟨v, hv, bears⟩
    · have mem : w ∈ critical [w] := List.mem_filter.mpr ⟨List.mem_singleton_self w, by simpa using severity.mpr own⟩
      rw [grave] at mem
      cases mem
  · obtain ⟨w, hw⟩ := List.exists_mem_of_ne_nil _ grave
    obtain ⟨mem, error⟩ := List.mem_filter.mp hw
    rw [decide_eq_true_eq] at error
    rcases told with rfl | ⟨enabled, warns, told⟩
    · cases mem
    · cases source : d.lintSource with
      | none =>
        unfold typeAwareWarnings at told
        rw [source] at told
        cases told
        cases mem
      | some lint =>
        rcases typeAwareWarnings_cases source told with ⟨rfl, -⟩ | ⟨w', rfl, kind, rules, files, severity⟩
        · cases mem
        · obtain rfl := List.mem_singleton.mp mem
          refine .inr ⟨⟨enabled, warns, lint, source, severity.mp error⟩, lint, w, rfl, ?_, error, kind, rules, files⟩
          exact List.filter_eq_self.mpr fun u hu => by simpa [List.mem_singleton.mp hu] using error

/-- a policy that is asked for fails over grave warnings, with a message if one can be worded -/
theorem enforce_cases (fails : d.settings.failOnCrossover = true) (grave : critical ws ≠ []) :
    (∃ message, policyMessage (critical ws) = .ok message ∧ d.enforce ws = .error (.crossover message (critical ws))) ∨
      ∃ fault, policyMessage (critical ws) = .error fault ∧ d.enforce ws = .error (.fault fault) := by
  have applies : (d.settings.failOnCrossover && !(critical ws).isEmpty) = true := by simp [fails, grave]
  unfold Detector.enforce
  rw [if_pos applies]
  cases policyMessage (critical ws) with
  | ok message => exact .inl ⟨message, rfl, rfl⟩
  | error fault => exact .inr ⟨fault, rfl, rfl⟩

/-- what a failure over a batch says of it -/
theorem exists_of_police {message : String} (h : d.police vs reports = .error (.crossover message ws)) :
    d.settings.failOnCrossover = true ∧ Alarms d vs ∧
      ∃ lint w, d.lintSource = some lint ∧ ws = [w] ∧ w.severity = .error ∧ TellsOf lint vs w := by
  unfold Detector.police at h
  rcases bind_eq_error.mp h with failed | ⟨told, analyzed, enforced⟩
  · unfold orFail at failed
    split at failed <;> cases failed
  · rw [orFail_eq_ok] at analyzed
    have some : ¬(d.settings.failOnCrossover = false ∨ critical told = []) := by
      intro fine
      rw [enforce_eq_ok_iff.mpr fine] at enforced
      cases enforced
    rw [not_or, Bool.not_eq_false] at some
    obtain ⟨fails, grave⟩ := some
    rcases enforce_cases fails grave with ⟨message', worded, failed⟩ | ⟨fault, -, failed⟩
    · cases failed.symm.trans enforced
      rcases critical_analyze analyzed with ⟨none, -⟩ | ⟨alarms, lint, w, source, own, error, kind, rules, files⟩
      · exact absurd none grave
      · refine ⟨fails, alarms, lint, w, source, own, error, kind, rules, ?_⟩
        -- the message names the files, so all of them are texts
        have texts : ∀ v ∈ hitsOf lint vs, ∃ file, v.file = .text file := by
          intro v hv
          obtain ⟨value, kept, same⟩ : ∃ value ∈ distinctBy Value.key? ((hitsOf lint vs).map (·.file)),
              value.key? = v.file.key? := exists_mem_distinctBy (List.mem_map.mpr ⟨v, hv, rfl⟩)
          rw [own] at worded
          obtain ⟨s, rfl⟩ := texts_of_policyMessage worded w (List.mem_singleton_self w) value (files ▸ kept)
          exact ⟨s, Value.eq_text_of_key (eq_ok_of_toOption same.symm)⟩
        obtain ⟨names, listed, shown⟩ := lists_files texts
        exact ⟨names, files.trans listed, shown⟩
    · cases failed.symm.trans enforced

/-- what becomes of a batch that can be read, if the time of the linter can be rounded -/
theorem police_of_legible (legible : ∀ v ∈ vs, IsLegible v)
    (timed : d.settings.enabled = true → ∀ f, ¬Stalls d reports f) :
    (d.settings.failOnCrossover = true → Alarms d vs →
      ∃ message ws, d.police vs reports = .error (.crossover message ws)) ∧
      (¬(d.settings.failOnCrossover = true ∧ Alarms d vs) → d.police vs reports = .ok ()) := by
  obtain ⟨ws, analyzed⟩ : ∃ ws, d.analyze vs reports = .ok ws := by
    cases enabled : d.settings.enabled with
    | true => exact (analyze_of_legible enabled legible).2 (timed enabled)
    | false =>
      unfold Detector.analyze
      rw [enabled]
      exact ⟨[], rfl⟩
  have enforced : d.police vs reports = d.enforce ws := by
    unfold Detector.police
    rw [analyzed]
    rfl
  rw [enforced]
  rcases critical_analyze analyzed with ⟨none, quiet⟩ | ⟨alarms, lint, w, source, own, error, kind, rules, files⟩
  · exact ⟨fun _ alarms => absurd alarms quiet, fun _ => enforce_eq_ok_iff.mpr (.inr none)⟩
  · have texts : ∀ u ∈ critical ws, ∀ file ∈ u.files, ∃ s, file = .text s := by
      intro u hu file hfile
      rw [own] at hu
      obtain rfl := List.mem_singleton.mp hu
      rw [files] at hfile
      obtain ⟨v, hv, rfl⟩ := List.mem_map.mp ((distinctBy_sublist _ _).subset hfile)
      exact (legible v (mem_hitsOf.mp hv).1).file
    obtain ⟨message, worded⟩ := exists_policyMessage texts
    refine ⟨fun fails _ => ?_, fun spared => enforce_eq_ok_iff.mpr (.inl ?_)⟩
    · rcases enforce_cases fails (own ▸ List.cons_ne_nil w []) with ⟨message', -, failed⟩ | ⟨fault, unworded, -⟩
      · exact ⟨message', critical ws, failed⟩
      · cases unworded.symm.trans worded
    · exact Bool.eq_false_of_not_eq_true fun fails => spared ⟨fails, alarms⟩

/-! ### Sources of analyzers -/

/-- the source that an analyzer goes by: the one with which it was registered last, or else the built-in one of
its name -/
inductive Resolves (registered : List (String × Source)) (engine : String) : Source → Prop
  | registered {before after : List (String × Source)} {s : Source}
      (whole : registered = before ++ (engine, s) :: after) (last : ∀ p ∈ after, p.1 ≠ engine) :
      Resolves registered engine s
  | builtIn {s : Source} (unknown : ∀ p ∈ registered, p.1 ≠ engine) (named : s.name = engine) :
      Resolves registered engine s

theorem lookup_reverse_eq_some_iff {registered : List (String × Source)} {engine : String} {s : Source} :
    registered.reverse.lookup engine = some s ↔
      ∃ before after, registered = before ++ (engine, s) :: after ∧ ∀ p ∈ after, p.1 ≠ engine := by
  rw [List.lookup_eq_some_iff]
  constructor
  · rintro ⟨after, before, whole, last⟩
    refine ⟨before.reverse, after.reverse, ?_, fun p hp => (bne_iff_ne.mp (last p (List.mem_reverse.mp hp))).symm⟩
    rw [← List.reverse_reverse registered, whole]
    simp
  · rintro ⟨before, after, rfl, last⟩
    refine ⟨after.reverse, before.reverse, by simp, fun p hp => ?_⟩
    exact bne_iff_ne.mpr (last p (List.mem_reverse.mp hp)).symm

theorem sourceOf_eq_some_iff {registered : List (String × Source)} {engine : String} {s : Source} :
    sourceOf registered engine = some s ↔ Resolves registered engine s := by
  have named : Source.ofName? engine = some s ↔ s.name = engine := by
    constructor
    · intro h
      simpa using List.find?_some h
    · rintro rfl
      cases s <;> rfl
  unfold sourceOf
  constructor
  · intro h
    split at h
    · rename_i found
      cases h
      obtain ⟨before, after, whole, last⟩ := lookup_reverse_eq_some_iff.mp found
      exact .registered whole last
    · rename_i none
      refine .builtIn (fun p hp => ?_) (named.mp h)
      exact (bne_iff_ne.mp (List.lookup_eq_none_iff.mp none p (List.mem_reverse.mpr hp))).symm
  · rintro (⟨whole, last⟩ | ⟨unknown, own⟩)
    · rw [lookup_reverse_eq_some_iff.mpr ⟨_, _, whole, last⟩]
    · have none : registered.reverse.lookup engine = none :=
        List.lookup_eq_none_iff.mpr fun p hp => bne_iff_ne.mpr (unknown p (List.mem_reverse.mp hp)).symm
      rw [none]
      exact named.mpr own

/-- whether a batch has to be failed: this is asked for, and a finding of the linter bears a rule that needs types
and is of the gravest severity -/
structure Offends (settings : CrossoverSettings) (registered : List (String × Source)) (vs : List Violation) :
    Prop where
  enabled : settings.enabled = true
  fails : settings.failOnCrossover = true
  warns : settings.warnOnTypeAwareRules = true
  grave : ∃ lint, Resolves registered settings.lintEngine lint ∧ ∃ v ∈ vs, IsGrave lint v

theorem offends_iff {settings : CrossoverSettings} {registered : List (String × Source)} :
    Offends settings registered vs ↔ settings.failOnCrossover = true ∧ Alarms (.of settings registered) vs := by
  have lint : ∀ s, (Detector.of settings registered).lintSource = some s ↔ Resolves registered settings.lintEngine s :=
    fun s => sourceOf_eq_some_iff
  constructor
  · rintro ⟨enabled, fails, warns, s, resolves, grave⟩
    exact ⟨fails, enabled, warns, s, (lint s).mpr resolves, grave⟩
  · rintro ⟨fails, enabled, warns, s, source, grave⟩
    exact ⟨enabled, fails, warns, s, (lint s).mp source, grave⟩

/-- settings that ask for failures -/
def strict : CrossoverSettings := { failOnCrossover := true }

/-- a finding of the linter with a rule that needs types -/
def typed (file rule : String) (severity : Severity) : Violation :=
  { flagged file "any" .eslint with rule := .text rule, severity := .known severity }

/-- three findings of the linter with rules that need types, one of which is grave, and one of the compiler -/
def typedBatch : List Violation :=
  [typed "b.ts" "@typescript-eslint/no-unsafe-call" .info, flagged "c.ts" "TS1" .typescript,
    typed "a.ts" "@typescript-eslint/no-explicit-any" .error, typed "b.ts" "@typescript-eslint/no-explicit-any" .warn]

/-- a report of the linter about its time -/
def lintReport (elapsed : Amount) : Report := { (default : Report) with engine := "eslint", elapsed := elapsed }

theorem typedBatch_isLegible : ∀ v ∈ typedBatch, IsLegible v := by
  have legible (file rule : String) (severity : Severity) : IsLegible (typed file rule severity) :=
    ⟨⟨_, rfl⟩, ⟨_, rfl⟩, .inr ⟨_, rfl⟩⟩
  have flat (file code : String) (source : Source) : IsLegible (flagged file code source) :=
    ⟨⟨_, rfl⟩, ⟨_, rfl⟩, .inl rfl⟩
  simp [typedBatch, legible, flat]

theorem offends_typedBatch : Offends strict [] typedBatch := by
  refine ⟨rfl, rfl, rfl, .eslint, .builtIn nofun (by decide), typed "a.ts" "@typescript-eslint/no-explicit-any" .error,
    by simp [typedBatch], ⟨_, rfl, rfl, ?_⟩, rfl⟩
  decide

end Crossover

end LintLedger
