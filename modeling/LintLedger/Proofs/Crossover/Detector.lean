import LintLedger.Crossover
import LintLedger.Proofs.Distinct
import LintLedger.Proofs.Outcome
import LintLedger.Proofs.Value.Comparable
import Mathlib

/-!
# What the detector of crossover tells

Of all warnings only the one about lint rules that need types can be grave, and it is just if the linter
itself gave such a rule the gravest severity (`exists_hit_of_critical`).  It names every rule of that kind
that a finding of the linter bears (`exists_warning_of_hit`).  A batch is failed just if there is a grave
warning and the settings ask for that (`enforce_eq_ok_iff`).
-/

namespace LintLedger

namespace Outcome

variable {ε α : Type}

theorem filterAuxM_eq_ok_iff {p : α → Except ε Bool} {q : α → Bool} {xs acc ys : List α}
    (same : ∀ x b, p x = .ok b → b = q x) :
    xs.filterAuxM p acc = .ok ys ↔ (∀ x ∈ xs, ∃ b, p x = .ok b) ∧ ys = (xs.filter q).reverse ++ acc := by
  induction xs generalizing acc with
  | nil =>
    show Except.ok acc = Except.ok ys ↔ _
    simp [eq_comm]
  | cons x xs ih =>
    show (p x >>= fun b => xs.filterAuxM p (cond b (x :: acc) acc)) = .ok ys ↔ _
    have kept : ((x :: xs).filter q).reverse ++ acc = (xs.filter q).reverse ++ cond (q x) (x :: acc) acc := by
      cases own : q x with
      | false => rw [List.filter_cons_of_neg (by simp [own]), cond_false]
      | true => rw [List.filter_cons_of_pos own, List.reverse_cons, List.append_assoc, List.singleton_append, cond_true]
    rw [bind_eq_ok, List.forall_mem_cons, kept]
    constructor
    · rintro ⟨b, hb, h⟩
      obtain rfl := same x b hb
      obtain ⟨rest, rfl⟩ := ih.mp h
      exact ⟨⟨⟨_, hb⟩, rest⟩, rfl⟩
    · rintro ⟨⟨⟨b, hb⟩, rest⟩, rfl⟩
      obtain rfl := same x b hb
      exact ⟨_, hb, ih.mpr ⟨rest, rfl⟩⟩

/-- filtering ends well just if the filter does on each item, and then leaves the items that it accepts -/
theorem filterM_eq_ok_iff {p : α → Except ε Bool} {q : α → Bool} {xs ys : List α}
    (same : ∀ x b, p x = .ok b → b = q x) :
    xs.filterM p = .ok ys ↔ (∀ x ∈ xs, ∃ b, p x = .ok b) ∧ ys = xs.filter q := by
  show (xs.filterAuxM p [] >>= fun zs => pure zs.reverse) = .ok ys ↔ _
  rw [bind_eq_ok]
  constructor
  · rintro ⟨zs, hzs, h⟩
    cases h
    obtain ⟨all, rfl⟩ := (filterAuxM_eq_ok_iff same).mp hzs
    exact ⟨all, by simp⟩
  · rintro ⟨all, rfl⟩
    exact ⟨_, (filterAuxM_eq_ok_iff same).mpr ⟨all, rfl⟩, by simp [pure, Except.pure]⟩

/-- what are left are the items of which the filter has said so -/
theorem mem_filterM {p : α → Except ε Bool} {xs ys : List α} (h : xs.filterM p = .ok ys) {x : α} :
    x ∈ ys ↔ x ∈ xs ∧ p x = .ok true := by
  have same : ∀ x b, p x = .ok b → b = (p x).toOption.getD false := by
    intro x b hb
    rw [hb]
    rfl
  obtain ⟨all, rfl⟩ := (filterM_eq_ok_iff same).mp h
  rw [List.mem_filter]
  refine and_congr_right fun hx => ?_
  obtain ⟨b, hb⟩ := all x hx
  rw [hb]
  exact (Except.ok.injEq b true).to_iff.symm

end Outcome

namespace Crossover

open Outcome

variable {d : Detector} {lint : Source} {vs : List Violation} {v : Violation} {ws : List Warning} {w : Warning}
  {reports : List Report}

/-! ### Rules that need types -/

/-- whether a finding is one of the linter and bears a rule that needs types -/
structure IsHit (lint : Source) (v : Violation) : Prop where
  source : v.source.isClass lint = true
  rule : hasTypeAwareRule v = .ok true

theorem hasTypeAwareRule_eq_ok_true_iff :
    hasTypeAwareRule v = .ok true ↔ ∃ rule, v.rule = .text rule ∧ Catalog.isTypeAware rule = true := by
  have unnamed : Catalog.isTypeAware "" = false := by decide
  unfold hasTypeAwareRule
  constructor
  · intro h
    split at h
    · split at h
      · rename_i rule _
        exact ⟨rule, ‹_›, Except.ok.inj h⟩
      · obtain ⟨_, -, other⟩ := map_eq_ok.mp h
        cases other
    · cases h
  · rintro ⟨rule, own, aware⟩
    have truthy : v.rule.truthy = true := by
      rw [own]
      by_contra empty
      obtain rfl : rule = "" := by simpa [Value.truthy] using empty
      simp [unnamed] at aware
    rw [if_pos truthy, own]
    exact congrArg _ aware

theorem mem_typeAwareHits {hits : List Violation} (h : typeAwareHits lint vs = .ok hits) :
    v ∈ hits ↔ v ∈ vs ∧ IsHit lint v := by
  rw [mem_filterM h]
  refine and_congr_right fun _ => ?_
  split
  · rename_i source
    exact ⟨fun rule => ⟨source, rule⟩, fun hit => hit.rule⟩
  · rename_i other
    exact iff_of_false nofun fun hit => other hit.source

/-- the rules that are joined are the texts among some values, each in its place -/
theorem eq_map_of_joinTexts {position : Nat} {values : List Value} {texts : List String}
    (h : joinTexts position values = .ok texts) : values = texts.map .text := by
  induction values generalizing position texts with
  | nil =>
    cases h
    rfl
  | cons value rest ih =>
    cases value with
    | text s =>
      obtain ⟨more, joined, rfl⟩ := map_eq_ok.mp h
      rw [ih joined, List.map_cons]
    | _ => cases h

/-- values are taken once each just if each of them has a key, and then the first of each key is taken -/
theorem distinctValues_eq_ok_iff {values distinct : List Value} :
    distinctValues values = .ok distinct ↔
      (∀ v ∈ values, ∃ k, v.key = .ok k) ∧ distinct = distinctBy Value.key? values :=
  keyed_eq_ok_iff

/-- a text is still among some values once each of them is taken only once -/
theorem mem_of_distinctValues {values distinct : List Value} {s : String}
    (h : distinctValues values = .ok distinct) (mem : .text s ∈ values) : .text s ∈ distinct := by
  obtain ⟨-, rfl⟩ := distinctValues_eq_ok_iff.mp h
  obtain ⟨value, kept, same⟩ : ∃ value ∈ distinctBy Value.key? values, value.key? = (Value.text s).key? :=
    exists_mem_distinctBy mem
  obtain rfl := Value.eq_text_of_key (eq_ok_of_toOption same)
  exact kept

/-- the warning about lint rules that need types -/
theorem typeAwareWarnings_eq_ok (h : typeAwareWarnings d vs = .ok ws) :
    (∀ w ∈ ws, w.kind = .typeAwareRule ∧ (w.severity = .warn ∨ w.severity = .error ∧
      ∃ lint, d.lintSource = some lint ∧ ∃ v ∈ vs, IsHit lint v ∧ v.severity.isClass .error = true)) ∧
      ∀ lint, d.lintSource = some lint → ∀ v ∈ vs, IsHit lint v →
        ∃ w ∈ ws, ∃ rule, v.rule = .text rule ∧ rule ∈ w.rules := by
  unfold typeAwareWarnings at h
  cases source : d.lintSource with
  | none =>
    rw [source] at h
    cases h
    exact ⟨nofun, nofun⟩
  | some lint =>
    rw [source] at h
    obtain ⟨hits, hhits, h⟩ := bind_eq_ok.mp h
    split at h
    · rename_i none
      cases h
      refine ⟨nofun, fun lint' same v hv hit => ?_⟩
      cases same
      have mem := (mem_typeAwareHits hhits).mpr ⟨hv, hit⟩
      rw [List.isEmpty_iff.mp none] at mem
      cases mem
    · obtain ⟨distinct, hdistinct, h⟩ := bind_eq_ok.mp h
      obtain ⟨rules, hrules, h⟩ := bind_eq_ok.mp h
      obtain ⟨files, -, h⟩ := bind_eq_ok.mp h
      cases h
      refine ⟨fun w hw => ?_, fun lint' same v hv hit => ⟨_, List.mem_singleton_self _, ?_⟩⟩
      · rw [List.mem_singleton.mp hw]
        refine ⟨rfl, ?_⟩
        dsimp only
        split
        · rename_i grave
          obtain ⟨v, hv, error⟩ := List.any_eq_true.mp grave
          obtain ⟨mem, hit⟩ := (mem_typeAwareHits hhits).mp hv
          exact .inr ⟨rfl, lint, rfl, v, mem, hit, error⟩
        · exact .inl rfl
      · cases same
        obtain ⟨rule, own, -⟩ := hasTypeAwareRule_eq_ok_true_iff.mp hit.rule
        have mem : .text rule ∈ hits.map (·.rule) :=
          List.mem_map.mpr ⟨v, (mem_typeAwareHits hhits).mpr ⟨hv, hit⟩, own⟩
        have kept := mem_of_distinctValues hdistinct mem
        rw [eq_map_of_joinTexts hrules] at kept
        obtain ⟨rule', hrule, same⟩ := List.mem_map.mp kept
        cases same
        exact ⟨rule, own, hrule⟩

/-! ### Other warnings -/

theorem severity_of_duplicateWarnings (h : duplicateWarnings d vs = .ok ws) (hw : w ∈ ws) :
    w.severity = .warn := by
  unfold duplicateWarnings at h
  split at h
  · split at h
    · split at h
      · cases h
        cases hw
      · obtain ⟨ms, -, h⟩ := bind_eq_ok.mp h
        dsimp only at h
        split at h
        · cases h
          cases hw
        · obtain ⟨files, -, h⟩ := bind_eq_ok.mp h
          cases h
          rw [List.mem_singleton.mp hw]
    · cases h
      cases hw
  · cases h
    cases hw

theorem severity_of_legacyWarnings (h : legacyWarnings vs = .ok ws) (hw : w ∈ ws) : w.severity = .warn := by
  unfold legacyWarnings at h
  dsimp only at h
  split at h
  · cases h
    cases hw
  · obtain ⟨distinct, -, h⟩ := bind_eq_ok.mp h
    obtain ⟨rules, -, h⟩ := bind_eq_ok.mp h
    obtain ⟨files, -, h⟩ := bind_eq_ok.mp h
    cases h
    rw [List.mem_singleton.mp hw]

theorem severity_of_slowWarnings (h : slowWarnings d reports = .ok ws) (hw : w ∈ ws) :
    w.severity = .warn := by
  unfold slowWarnings at h
  dsimp only at h
  split at h
  · cases h
    cases hw
  · obtain ⟨seconds, -, h⟩ := bind_eq_ok.mp h
    cases h
    rw [List.mem_singleton.mp hw]

/-! ### All warnings -/

/-- a detector that is switched on looks for one thing after the other -/
theorem analyze_eq (on : d.settings.enabled = true) : d.analyze vs reports =
    (if d.settings.warnOnTypeAwareRules then typeAwareWarnings d vs else pure []) >>= fun aware =>
      (if d.settings.warnOnDuplicates then duplicateWarnings d vs else pure []) >>= fun duplicate =>
        legacyWarnings vs >>= fun legacy => slowWarnings d reports >>= fun slow =>
          pure (aware ++ duplicate ++ legacy ++ slow) := by
  unfold Detector.analyze
  rw [on]
  cases d.settings.warnOnTypeAwareRules <;> cases d.settings.warnOnDuplicates <;> rfl

/-- what a detector tells are warnings about rules that need types, if it is asked for them, and others, none
of which is grave -/
theorem analyze_eq_ok (h : d.analyze vs reports = .ok ws) :
    ∃ aware others, ws = aware ++ others ∧ (∀ w ∈ others, w.severity = .warn) ∧
      (aware = [] ∨ d.settings.enabled = true ∧ d.settings.warnOnTypeAwareRules = true ∧
        typeAwareWarnings d vs = .ok aware) ∧
      (d.settings.enabled = true → d.settings.warnOnTypeAwareRules = true →
        typeAwareWarnings d vs = .ok aware) := by
  cases on : d.settings.enabled with
  | false =>
    unfold Detector.analyze at h
    rw [on] at h
    cases h
    exact ⟨[], [], rfl, nofun, .inl rfl, nofun⟩
  | true =>
    rw [analyze_eq on] at h
    obtain ⟨aware, haware, h⟩ := bind_eq_ok.mp h
    obtain ⟨duplicate, hduplicate, h⟩ := bind_eq_ok.mp h
    obtain ⟨legacy, hlegacy, h⟩ := bind_eq_ok.mp h
    obtain ⟨slow, hslow, h⟩ := bind_eq_ok.mp h
    cases h
    refine ⟨aware, duplicate ++ legacy ++ slow, by simp only [List.append_assoc], fun w hw => ?_, ?_,
      fun _ asked => ?_⟩
    · rw [List.mem_append, List.mem_append] at hw
      rcases hw with (hw | hw) | hw
      · split at hduplicate
        · exact severity_of_duplicateWarnings hduplicate hw
        · cases hduplicate
          cases hw
      · exact severity_of_legacyWarnings hlegacy hw
      · exact severity_of_slowWarnings hslow hw
    · split at haware
      · rename_i asked
        exact .inr ⟨rfl, asked, haware⟩
      · exact .inl (Except.ok.inj haware).symm
    · rwa [if_pos asked] at haware

/-- a grave warning comes from a finding of the linter that bears a rule that needs types, and to which the
linter gave the gravest severity -/
theorem exists_hit_of_critical (h : d.analyze vs reports = .ok ws) (grave : critical ws ≠ []) :
    ∃ lint, d.lintSource = some lint ∧ ∃ v ∈ vs, IsHit lint v ∧ v.severity.isClass .error = true := by
  obtain ⟨aware, others, rfl, minor, told, -⟩ := analyze_eq_ok h
  obtain ⟨w, hw⟩ := List.exists_mem_of_ne_nil _ grave
  obtain ⟨mem, error⟩ := List.mem_filter.mp hw
  rw [decide_eq_true_eq] at error
  rcases List.mem_append.mp mem with mem | mem
  · rcases told with rfl | ⟨-, -, told⟩
    · cases mem
    · rcases ((typeAwareWarnings_eq_ok told).1 w mem).2 with warn | ⟨-, hit⟩
      · rw [warn] at error
        cases error
      · exact hit
  · rw [minor w mem] at error
    cases error

/-- a rule that needs types is named by a warning if the linter has found something for it -/
theorem exists_warning_of_hit (h : d.analyze vs reports = .ok ws) (enabled : d.settings.enabled = true)
    (asked : d.settings.warnOnTypeAwareRules = true) (source : d.lintSource = some lint) (hv : v ∈ vs)
    (hit : IsHit lint v) :
    ∃ w ∈ ws, w.kind = .typeAwareRule ∧ (w.severity = .warn ∨ w.severity = .error) ∧
      ∃ rule, v.rule = .text rule ∧ rule ∈ w.rules := by
  obtain ⟨aware, others, rfl, -, -, told⟩ := analyze_eq_ok h
  obtain ⟨kinds, named⟩ := typeAwareWarnings_eq_ok (told enabled asked)
  obtain ⟨w, hw, rule⟩ := named lint source v hv hit
  obtain ⟨kind, severity⟩ := kinds w hw
  exact ⟨w, List.mem_append_left _ hw, kind, severity.imp_right And.left, rule⟩

/-- a batch is failed just if there is a grave warning and the settings ask for that -/
theorem enforce_eq_ok_iff : d.enforce ws = .ok () ↔ d.settings.failOnCrossover = false ∨ critical ws = [] := by
  unfold Detector.enforce
  by_cases fails : (d.settings.failOnCrossover && !(critical ws).isEmpty) = true
  · rw [if_pos fails]
    refine iff_of_false ?_ ?_
    · split <;> exact nofun
    · simpa [not_or] using fails
  · rw [if_neg fails]
    refine iff_of_true rfl ?_
    simpa [or_iff_not_imp_left] using fails

end Crossover

end LintLedger
