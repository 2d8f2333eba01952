import LintLedger.Proofs.Crossover.Detector
import LintLedger.Proofs.Findings.FirstOfKey
import LintLedger.Proofs.Violation.Classes
import Mathlib

/-!
# Places that both analyzers complain about

The detector looks at the findings of the type analyzer and of the linter, and at no others.  It meets the
places at which these stand one after the other; those that both complain about are known by the findings at
which they are met first (`meetings_isMeeting`), and the warning tells no more than these findings
(`exists_duplicateWarnings`, `duplicateWarnings_congr`).  Findings with one exact key are of one analyzer and
stand at one place, so thinning out exactly leaves all meetings as they were (`meetings_of_exact`).  After
thinning out by place no two findings share one, and there is no meeting left (`meetings_of_location`).
-/

namespace LintLedger

open Outcome

/-- whether the analyzer of a finding is known wherever the name of one stands in its place -/
def Violation.NamesSource (v : Violation) : Prop :=
  ∀ s : Source, v.source.toValue Source.name = .text s.name → v.source = .known s

/-- what is read knows the analyzer that it names -/
theorem Violation.namesSource_of_read {v : Violation} {value : Value}
    (read : v.source = .ofValue Source.ofName? value) : v.NamesSource := by
  intro s named
  rw [read] at named ⊢
  cases found : Label.ofValue Source.ofName? value with
  | known t =>
    rw [found] at named
    rw [Violation.source_name_injective (Value.text.inj named)]
  | raw other =>
    rw [found] at named
    rw [Label.eq_of_ofValue_eq_raw found, show other = .text s.name from named, Label.ofValue_source] at found
    cases found

theorem Violation.IsTyped.namesSource {v : Violation} (h : v.IsTyped) : v.NamesSource := by
  obtain ⟨s, known⟩ := h.source
  exact namesSource_of_read (known.trans (Label.ofValue_source s).symm)

namespace Crossover

open Findings

variable {d : Detector} {type lint : Source} {vs ws : List Violation} {v w : Violation} {s : Spot}

/-! ### Places -/

/-- whether a finding stands at a place -/
structure StandsAt (v : Violation) (s : Spot) : Prop where
  file : v.file.key = .ok s.file
  line : v.line.key = .ok s.line

/-- the place of a finding; one that has none counts as standing nowhere -/
def spotOf (v : Violation) : Spot := ⟨v.file.key?.getD .null, v.line.key?.getD .null⟩

theorem StandsAt.spotOf_eq (h : StandsAt v s) : spotOf v = s := by
  unfold spotOf Value.key?
  rw [h.file, h.line]
  rfl

theorem standsAt_spotOf (h : ∃ s, StandsAt v s) : StandsAt v (spotOf v) := by
  obtain ⟨s, h⟩ := h
  rwa [h.spotOf_eq]

/-- a finding stands somewhere just if it has a key by place -/
theorem exists_standsAt_iff : (∃ s, StandsAt v s) ↔ ∃ key, keyOf .location v = .ok key := by
  constructor
  · rintro ⟨s, file, line⟩
    exact ⟨_, keyOf_location_eq_ok_iff.mpr ⟨_, _, file, line, rfl⟩⟩
  · rintro ⟨key, hkey⟩
    obtain ⟨file, line, hfile, hline, -⟩ := keyOf_location_eq_ok_iff.mp hkey
    exact ⟨⟨file, line⟩, hfile, hline⟩

theorem keyFor_location_eq (h : ∃ s, StandsAt v s) : keyFor .location v = [(spotOf v).file, (spotOf v).line] := by
  obtain ⟨file, line⟩ := standsAt_spotOf h
  exact (keyOf_eq_ok_iff.mp (keyOf_location_eq_ok_iff.mpr ⟨_, _, file, line, rfl⟩)).2.symm

/-- findings stand at one place just if they have one key by place -/
theorem keyFor_location_eq_iff (hv : ∃ s, StandsAt v s) (hw : ∃ s, StandsAt w s) :
    keyFor .location v = keyFor .location w ↔ spotOf v = spotOf w := by
  rw [keyFor_location_eq hv, keyFor_location_eq hw]
  constructor
  · intro same
    obtain ⟨file, line⟩ : (spotOf v).file = (spotOf w).file ∧ (spotOf v).line = (spotOf w).line := by
      simpa using same
    exact congrArg₂ Spot.mk file line
  · intro same
    rw [same]

/-- whether two analyzers both complain about a place -/
structure BothComplain (type lint : Source) (vs : List Violation) (s : Spot) : Prop where
  type : ∃ v ∈ vs, v.source = .known type ∧ StandsAt v s
  lint : ∃ v ∈ vs, v.source = .known lint ∧ StandsAt v s

/-! ### Meetings -/

/-- the findings of two analyzers -/
def ofEither (type lint : Source) (vs : List Violation) : List Violation :=
  vs.filter fun v => v.source.isClass type || v.source.isClass lint

/-- the findings at which places that both analyzers complain about are met first -/
def meetings (type lint : Source) (vs : List Violation) : List Violation :=
  (distinctBy spotOf (ofEither type lint vs)).filter fun v =>
    (ofEither type lint vs).any (fun w => spotOf w = spotOf v && w.source.isClass type) &&
      (ofEither type lint vs).any fun w => spotOf w = spotOf v && !w.source.isClass type

/-- whether some findings are those at which the places that both analyzers complain about are met first, in the
order in which they are met -/
structure IsMeeting (type lint : Source) (vs firsts : List Violation) : Prop where
  places : ∀ s, s ∈ firsts.map spotOf ↔ BothComplain type lint vs s
  first : ∀ v ∈ firsts,
    (ofEither type lint vs)[beginsAt spotOf (ofEither type lint vs) (spotOf v)]? = some v
  order : firsts.Pairwise fun v w => beginsAt spotOf (ofEither type lint vs) (spotOf v) <
    beginsAt spotOf (ofEither type lint vs) (spotOf w)

theorem mem_ofEither : v ∈ ofEither type lint vs ↔
    v ∈ vs ∧ (v.source = .known type ∨ v.source = .known lint) := by
  simp [ofEither, Label.isClass_eq_true_iff]

/-- a finding of two analyzers that is none of the one is of the other -/
theorem not_isClass_iff (apart : type ≠ lint) (h : v ∈ ofEither type lint vs) :
    (!v.source.isClass type) = true ↔ v.source = .known lint := by
  rw [Bool.not_eq_true', ← Bool.not_eq_true, Label.isClass_eq_true_iff]
  constructor
  · exact fun not => (mem_ofEither.mp h).2.resolve_left not
  · intro lints types
    rw [lints] at types
    exact apart (Label.known.inj types).symm

/-- the detector meets just the places that both analyzers complain about -/
theorem meetings_isMeeting (apart : type ≠ lint) (placed : ∀ v ∈ ofEither type lint vs, ∃ s, StandsAt v s) :
    IsMeeting type lint vs (meetings type lint vs) where
  places s := by
    rw [List.mem_map]
    constructor
    · rintro ⟨v, hv, rfl⟩
      obtain ⟨-, both⟩ := List.mem_filter.mp hv
      rw [Bool.and_eq_true, List.any_eq_true, List.any_eq_true] at both
      obtain ⟨⟨w, hw, type'⟩, u, hu, lint'⟩ := both
      rw [Bool.and_eq_true, decide_eq_true_iff] at type' lint'
      exact ⟨⟨w, (mem_ofEither.mp hw).1, Label.isClass_eq_true_iff.mp type'.2,
          type'.1 ▸ standsAt_spotOf (placed w hw)⟩,
        u, (mem_ofEither.mp hu).1, (not_isClass_iff apart hu).mp lint'.2, lint'.1 ▸ standsAt_spotOf (placed u hu)⟩
    · rintro ⟨⟨w, hw, type', at'⟩, u, hu, lint', at''⟩
      have hw : w ∈ ofEither type lint vs := mem_ofEither.mpr ⟨hw, .inl type'⟩
      have hu : u ∈ ofEither type lint vs := mem_ofEither.mpr ⟨hu, .inr lint'⟩
      obtain ⟨v, hv, same⟩ : ∃ v ∈ distinctBy spotOf (ofEither type lint vs), spotOf v = spotOf w :=
        exists_mem_distinctBy hw
      rw [at'.spotOf_eq] at same
      refine ⟨v, List.mem_filter.mpr ⟨hv, ?_⟩, same⟩
      rw [same, Bool.and_eq_true, List.any_eq_true, List.any_eq_true]
      refine ⟨⟨w, hw, ?_⟩, u, hu, ?_⟩
      · rw [at'.spotOf_eq, decide_eq_true rfl, Bool.true_and]
        exact Label.isClass_eq_true_iff.mpr type'
      · rw [at''.spotOf_eq, decide_eq_true rfl, Bool.true_and]
        exact (not_isClass_iff apart hu).mpr lint'
  first v hv := getElem?_beginsAt (List.mem_filter.mp hv).1
  order := (pairwise_beginsAt spotOf (ofEither type lint vs)).filter _

/-! ### The warning -/

/-- the mark that a finding makes -/
def markOf (type : Source) (v : Violation) : Mark := ⟨spotOf v, v.file, v.source.isClass type⟩

theorem marks_eq_ok_iff {ms : List Mark} : marks type lint vs = .ok ms ↔
    (∀ v ∈ ofEither type lint vs, ∃ s, StandsAt v s) ∧ ms = (ofEither type lint vs).map (markOf type) := by
  refine mapM_eq_ok_map fun v m => ?_
  constructor
  · intro h
    obtain ⟨file, hfile, h⟩ := bind_eq_ok.mp h
    obtain ⟨line, hline, h⟩ := bind_eq_ok.mp h
    cases h
    have stands : StandsAt v ⟨file, line⟩ := ⟨hfile, hline⟩
    exact ⟨⟨_, stands⟩, by rw [markOf, stands.spotOf_eq]⟩
  · rintro ⟨stands, rfl⟩
    obtain ⟨file, line⟩ := standsAt_spotOf stands
    exact bind_eq_ok.mpr ⟨_, file, bind_eq_ok.mpr ⟨_, line, rfl⟩⟩

theorem conflicts_map_markOf :
    conflicts ((ofEither type lint vs).map (markOf type)) = (meetings type lint vs).map (markOf type) := by
  unfold conflicts meetings
  rw [distinctBy_map, List.filter_map]
  simp only [Function.comp_def, List.any_map]
  rfl

/-- whether a detector knows both analyzers, and as different ones -/
structure Detector.Watches (d : Detector) (type lint : Source) : Prop where
  types : d.typeSource = some type
  lints : d.lintSource = some lint
  apart : type ≠ lint

theorem placed_of_eq_ok (watches : d.Watches type lint) {warnings : List Warning}
    (h : duplicateWarnings d vs = .ok warnings) : ∀ v ∈ ofEither type lint vs, ∃ s, StandsAt v s := by
  unfold duplicateWarnings at h
  rw [watches.types, watches.lints] at h
  dsimp only at h
  rw [if_neg watches.apart] at h
  obtain ⟨ms, hms, -⟩ := bind_eq_ok.mp h
  exact (marks_eq_ok_iff.mp hms).1

/-- what is told depends on nothing but the meetings -/
theorem duplicateWarnings_congr (watches : d.Watches type lint)
    (placed : ∀ v ∈ ofEither type lint vs, ∃ s, StandsAt v s)
    (placed' : ∀ v ∈ ofEither type lint ws, ∃ s, StandsAt v s)
    (same : meetings type lint vs = meetings type lint ws) : duplicateWarnings d vs = duplicateWarnings d ws := by
  have marked : ∀ us, (∀ v ∈ ofEither type lint us, ∃ s, StandsAt v s) →
      marks type lint us = .ok ((ofEither type lint us).map (markOf type)) :=
    fun us placed => marks_eq_ok_iff.mpr ⟨placed, rfl⟩
  unfold duplicateWarnings
  rw [watches.types, watches.lints]
  dsimp only
  rw [marked vs placed, marked ws placed', ok_bind, ok_bind, conflicts_map_markOf, conflicts_map_markOf, same]

/-- of findings that stand somewhere it is told where both analyzers complain, if they do anywhere -/
theorem exists_duplicateWarnings (watches : d.Watches type lint)
    (placed : ∀ v ∈ ofEither type lint vs, ∃ s, StandsAt v s) :
    ∃ warnings, duplicateWarnings d vs = .ok warnings ∧ (meetings type lint vs = [] → warnings = []) ∧
      (meetings type lint vs ≠ [] → ∃ w, warnings = [w] ∧ w.kind = .duplicateViolation ∧ w.severity = .warn ∧
        w.message = "Found " ++ counted (meetings type lint vs).length ++
          " location(s) flagged by both the type analyzer and the linter" ∧ w.rules = [] ∧
        w.files = (distinctBy (·.file.key?) (meetings type lint vs)).map (·.file)) := by
  have marked : marks type lint vs = .ok ((ofEither type lint vs).map (markOf type)) :=
    marks_eq_ok_iff.mpr ⟨placed, rfl⟩
  have files : distinctValues (((meetings type lint vs).map (markOf type)).map (·.file)) =
      .ok ((distinctBy (·.file.key?) (meetings type lint vs)).map (·.file)) := by
    rw [List.map_map]
    refine distinctValues_eq_ok_iff.mpr ⟨fun file hfile => ?_, (distinctBy_map Value.key? Violation.file _).symm⟩
    obtain ⟨v, hv, rfl⟩ := List.mem_map.mp hfile
    have mem := (distinctBy_sublist _ _).subset (List.mem_filter.mp hv).1
    exact ⟨_, (standsAt_spotOf (placed v mem)).file⟩
  unfold duplicateWarnings
  rw [watches.types, watches.lints]
  dsimp only
  rw [if_neg watches.apart, marked, ok_bind, conflicts_map_markOf, files]
  by_cases none : meetings type lint vs = []
  · rw [none]
    exact ⟨[], rfl, fun _ => rfl, fun some => absurd rfl some⟩
  · rw [if_neg (by simpa using none), ok_bind]
    refine ⟨_, rfl, fun h => absurd h none, fun _ => ⟨_, rfl, rfl, rfl, ?_, rfl, rfl⟩⟩
    rw [List.length_map]

/-! ### Findings that are thinned out -/

/-- findings with one key for their analyzers are of one that is known, if one of them is -/
theorem known_of_labelKey {source : Source} {key : Key} (named : w.NamesSource) (known : v.source = .known source)
    (hv : labelKey Source.name v.source = .ok key) (hw : labelKey Source.name w.source = .ok key) :
    w.source = .known source := by
  rw [known] at hv
  cases hv
  exact named source (Value.eq_text_of_key hw)

/-- a finding that has an exact key stands somewhere -/
theorem exists_standsAt_of_exact (h : ∃ key, keyOf .exact v = .ok key) : ∃ s, StandsAt v s := by
  obtain ⟨key, hkey⟩ := h
  obtain ⟨file, line, _, -, placed⟩ := location_of_exact hkey
  exact exists_standsAt_iff.mpr ⟨_, placed⟩

/-- findings with one exact key stand at one place and are of one analyzer -/
theorem alike_of_exact_eq (hv : ∃ key, keyOf .exact v = .ok key) (hw : ∃ key, keyOf .exact w = .ok key)
    (namedV : v.NamesSource) (namedW : w.NamesSource) (same : keyFor .exact v = keyFor .exact w) :
    spotOf v = spotOf w ∧ ∀ s, v.source.isClass s = w.source.isClass s := by
  constructor
  · rw [← keyFor_location_eq_iff (exists_standsAt_of_exact hv) (exists_standsAt_of_exact hw)]
    exact location_eq_of_exact_eq hv hw same
  · obtain ⟨keyV, hkeyV⟩ := hv
    obtain ⟨keyW, hkeyW⟩ := hw
    rw [← (keyOf_eq_ok_iff.mp hkeyV).2, ← (keyOf_eq_ok_iff.mp hkeyW).2] at same
    obtain ⟨_, _, _, _, -, -, -, sourceV, rfl⟩ := keyOf_exact_eq_ok_iff.mp hkeyV
    obtain ⟨_, _, _, _, -, -, -, sourceW, rfl⟩ := keyOf_exact_eq_ok_iff.mp hkeyW
    cases same
    intro s
    rw [Bool.eq_iff_iff, Label.isClass_eq_true_iff, Label.isClass_eq_true_iff]
    exact ⟨fun known => known_of_labelKey namedW known sourceV sourceW,
      fun known => known_of_labelKey namedV known sourceW sourceV⟩

/-- thinning out exactly leaves the meetings as they were -/
theorem meetings_of_exact (named : ∀ v ∈ vs, v.NamesSource) (h : deduplicate .exact vs = .ok ws) :
    meetings type lint ws = meetings type lint vs := by
  obtain ⟨keyed, rfl⟩ := deduplicate_eq_ok_iff.mp h
  have alike : ∀ v ∈ vs, ∀ w ∈ vs, keyFor .exact v = keyFor .exact w →
      spotOf v = spotOf w ∧ ∀ s, v.source.isClass s = w.source.isClass s := fun v hv w hw =>
    alike_of_exact_eq (keyed v hv) (keyed w hw) (named v hv) (named w hw)
  have either : ofEither type lint (distinctBy (keyFor .exact) vs) =
      distinctBy (keyFor .exact) (ofEither type lint vs) :=
    filter_distinctBy_of fun v hv w hw same => by simp only [(alike v hv w hw same).2]
  have among : ∀ v ∈ ofEither type lint vs, v ∈ vs := fun v hv => (mem_ofEither.mp hv).1
  unfold meetings
  rw [either, distinctBy_distinctBy fun v hv w hw same => (alike v (among v hv) w (among w hw) same).1]
  refine List.filter_congr fun v _ => ?_
  congr 1
  all_goals
    refine any_distinctBy fun u hu w hw same => ?_
    obtain ⟨spot, source⟩ := alike u (among u hu) w (among w hw) same
    rw [spot, source]

/-- no two findings that are left of thinning out by place meet -/
theorem meetings_of_location (h : deduplicate .location vs = .ok ws) : meetings type lint ws = [] := by
  obtain ⟨keyed, rfl⟩ := deduplicate_eq_ok_iff.mp h
  have kept : ((distinctBy (keyFor .location) vs).map (keyFor .location)).Nodup :=
    List.pairwise_map.mpr (pairwise_distinctBy _ vs)
  refine List.filter_eq_nil_iff.mpr fun v _ both => ?_
  rw [Bool.and_eq_true, List.any_eq_true, List.any_eq_true] at both
  obtain ⟨⟨w, hw, type'⟩, u, hu, lint'⟩ := both
  rw [Bool.and_eq_true, decide_eq_true_iff] at type' lint'
  have hw := (mem_ofEither.mp hw).1
  have hu := (mem_ofEither.mp hu).1
  have place : ∀ v ∈ distinctBy (keyFor .location) vs, ∃ s, StandsAt v s := fun v hv =>
    exists_standsAt_iff.mpr (keyed v ((distinctBy_sublist _ vs).subset hv))
  obtain rfl : w = u := List.inj_on_of_nodup_map kept hw hu
    ((keyFor_location_eq_iff (place w hw) (place u hu)).mpr (type'.1.trans lint'.1.symm))
  rw [type'.2] at lint'
  cases lint'.2

/-- **Overlap is told exactly, and thinning out exactly does not change what is told.** Take a detector that knows
two different analyzers, and any findings.  The detector ends well just if each finding of the two stands at a
place, as it does if its file is a text and its line a number.  Nothing is told if there is no place that both
complain about.  Else there is one warning: it counts these places and names their files, each once, in the order
in which the detector meets the places, which is that of the first finding that either analyzer has there; it
passes over what others find.  Findings that are thinned out exactly are told of as all of them are, if analyzers
are known where they are named, as reading sees to; of findings that are thinned out by place nothing is told. -/
theorem overlap_exact (watches : d.Watches type lint) (vs : List Violation) :
    ((∃ warnings, duplicateWarnings d vs = .ok warnings) ↔
      ∀ v ∈ vs, v.source = .known type ∨ v.source = .known lint → ∃ s, StandsAt v s) ∧
    (∀ warnings, duplicateWarnings d vs = .ok warnings → ∃ firsts, IsMeeting type lint vs firsts ∧
      ((¬ ∃ s, BothComplain type lint vs s) → warnings = []) ∧
      ((∃ s, BothComplain type lint vs s) → ∃ w, warnings = [w] ∧ w.kind = .duplicateViolation ∧
        w.severity = .warn ∧ w.message = "Found " ++ counted firsts.length ++
          " location(s) flagged by both the type analyzer and the linter" ∧ w.rules = [] ∧
        w.files = (distinctBy (·.file.key?) firsts).map (·.file))) ∧
    (∀ thinned, (∀ v ∈ vs, v.NamesSource) → deduplicate .exact vs = .ok thinned →
      duplicateWarnings d thinned = duplicateWarnings d vs) ∧
    ∀ thinned, deduplicate .location vs = .ok thinned → duplicateWarnings d thinned = .ok [] := by
  have placed_iff : (∀ v ∈ ofEither type lint vs, ∃ s, StandsAt v s) ↔
      ∀ v ∈ vs, v.source = .known type ∨ v.source = .known lint → ∃ s, StandsAt v s :=
    forall_congr' fun v => by rw [mem_ofEither, and_imp]
  refine ⟨?_, fun warnings told => ?_, fun thinned named thin => ?_, fun thinned thin => ?_⟩
  · rw [← placed_iff]
    refine ⟨fun ⟨warnings, told⟩ => placed_of_eq_ok watches told, fun placed => ?_⟩
    obtain ⟨warnings, told, -⟩ := exists_duplicateWarnings watches placed
    exact ⟨warnings, told⟩
  · have placed := placed_of_eq_ok watches told
    have meeting := meetings_isMeeting watches.apart placed
    obtain ⟨warnings', told', nothing, something⟩ := exists_duplicateWarnings watches placed
    obtain rfl : warnings = warnings' := Except.ok.inj (told.symm.trans told')
    have meet : (∃ s, BothComplain type lint vs s) ↔ meetings type lint vs ≠ [] := by
      simp [← meeting.places, List.eq_nil_iff_forall_not_mem]
    refine ⟨_, meeting, fun none => nothing ?_, fun some => something (meet.mp some)⟩
    exact not_not.mp fun some => none (meet.mpr some)
  · obtain ⟨keyed, kept⟩ := deduplicate_eq_ok_iff.mp thin
    have placed : ∀ v ∈ vs, ∃ s, StandsAt v s := fun v hv => exists_standsAt_of_exact (keyed v hv)
    have sub : ∀ v ∈ thinned, v ∈ vs := fun v hv => (distinctBy_sublist _ vs).subset (kept ▸ hv)
    exact duplicateWarnings_congr watches (fun v hv => placed v (sub v (mem_ofEither.mp hv).1))
      (fun v hv => placed v (mem_ofEither.mp hv).1) (meetings_of_exact named thin)
  · obtain ⟨keyed, kept⟩ := deduplicate_eq_ok_iff.mp thin
    have placed : ∀ v ∈ ofEither type lint thinned, ∃ s, StandsAt v s := fun v hv =>
      exists_standsAt_iff.mpr (keyed v ((distinctBy_sublist _ vs).subset (kept ▸ (mem_ofEither.mp hv).1)))
    obtain ⟨warnings, told, nothing, -⟩ := exists_duplicateWarnings watches placed
    rw [told, nothing (meetings_of_location thin)]

/-- a finding of an analyzer in the first line of a file -/
def flagged (file code : String) (source : Source) : Violation :=
  ⟨.text file, .int 1, .text code, .known .codeQuality, .known .warn, .known source, .null, .null, .null, .null⟩

/-- findings of the compiler and the linter in two files that they share, behind one of a third analyzer -/
def crossing : List Violation :=
  [flagged "b.ts" "x" .custom, flagged "a.ts" "TS1" .typescript, flagged "a.ts" "TS1" .typescript,
    flagged "b.ts" "r" .eslint, flagged "a.ts" "r" .eslint, flagged "b.ts" "TS2" .typescript, flagged "c.ts" "r" .eslint]

/-- the detector of the built-in analyzers -/
def builtIn : Detector := .of {} []

theorem builtIn_watches : builtIn.Watches .typescript .eslint := ⟨by decide +kernel, by decide +kernel, by decide⟩

theorem crossing_isTyped : ∀ v ∈ crossing, v.IsTyped := by
  have typed (file code : String) (source : Source) : (flagged file code source).IsTyped :=
    ⟨⟨_, rfl⟩, ⟨_, rfl⟩, ⟨_, rfl⟩, ⟨_, rfl⟩, ⟨_, rfl⟩, ⟨_, rfl⟩⟩
  simp [crossing, typed]

/-- the third analyzer does not count: the file that it names first comes second -/
theorem overlap_exact_crossing : builtIn.Watches .typescript .eslint ∧
    ∃ w, duplicateWarnings builtIn crossing = .ok [w] ∧
      w.message = "Found 2 location(s) flagged by both the type analyzer and the linter" ∧
      w.files.map Value.key? = [some (.text "a.ts"), some (.text "b.ts")] ∧
      (∃ thinned, deduplicate .exact crossing = .ok thinned ∧ duplicateWarnings builtIn thinned = .ok [w]) ∧
      ∃ thinned, deduplicate .location crossing = .ok thinned ∧ duplicateWarnings builtIn thinned = .ok [] := by
  have evaluated : (duplicateWarnings builtIn crossing).toOption.map (·.map fun w =>
      (w.message, w.files.map Value.key?)) =
        some [("Found 2 location(s) flagged by both the type analyzer and the linter",
          [some (.text "a.ts"), some (.text "b.ts")])] := by
    decide +kernel
  have thins (strategy : Strategy) : ∃ thinned, deduplicate strategy crossing = .ok thinned :=
    ⟨_, deduplicate_eq_ok_iff.mpr ⟨fun v hv => exists_key_of_isTyped (crossing_isTyped v hv) strategy, rfl⟩⟩
  obtain ⟨ends, told, exact, location⟩ := overlap_exact builtIn_watches crossing
  obtain ⟨warnings, shown⟩ := ends.mpr fun v hv _ =>
    exists_standsAt_iff.mpr (exists_key_of_isTyped (crossing_isTyped v hv) .location)
  rw [shown] at evaluated
  obtain ⟨w, rfl, own⟩ := List.map_eq_singleton_iff.mp (Option.some.inj evaluated)
  obtain ⟨message, files⟩ := Prod.mk.inj own
  obtain ⟨thinned, thin⟩ := thins .exact
  obtain ⟨thinned', thin'⟩ := thins .location
  exact ⟨builtIn_watches, w, shown, message, files,
    ⟨thinned, thin, (exact thinned (fun v hv => (crossing_isTyped v hv).namesSource) thin).trans shown⟩,
    thinned', thin', location thinned' thin'⟩

end Crossover

end LintLedger
