import LintLedger.Proofs.Findings.Ordered
import LintLedger.Proofs.Findings.Thinned
import Mathlib

/-!
# The first finding of each key

Findings are thinned out to those before which no finding of their key stands (`distinctBy_eq_firsts`).  Of
merged findings these are, of each key, the least by rank, severity, file and line, and the earliest of their
analyzer where several are (`isSurvivor_of_merge`), since a row put in order begins with the earliest of its
least items (`Order.Orders.exists_first`).
-/

namespace LintLedger

open Outcome Value

/-- a finding whose file and code are texts, whose line is a whole number and whose classes are known -/
structure Violation.IsTyped (v : Violation) : Prop where
  file : ∃ s, v.file = .text s
  line : ∃ n, v.line = .int n
  code : ∃ s, v.code = .text s
  category : ∃ c, v.category = .known c
  severity : ∃ s, v.severity = .known s
  source : ∃ s, v.source = .known s

namespace Findings

variable {strategy : Strategy} {order : List String} {reports : List Report} {vs ws : List Violation}
  {v w : Violation}

/-! ### Keys -/

/-- a finding of the types that findings have has a key, however it is counted -/
theorem exists_key_of_isTyped (h : v.IsTyped) (strategy : Strategy) : ∃ key, keyOf strategy v = .ok key := by
  obtain ⟨⟨file, hfile⟩, ⟨line, hline⟩, ⟨code, hcode⟩, ⟨category, hcategory⟩, -, ⟨source, hsource⟩⟩ := h
  unfold keyOf
  cases strategy with
  | exact =>
    rw [hfile, hline, hcode, hsource]
    exact ⟨_, rfl⟩
  | location =>
    rw [hfile, hline]
    exact ⟨_, rfl⟩
  | similar =>
    rw [hfile, hcode, hcategory]
    exact ⟨_, rfl⟩

theorem keyOf_location_eq_ok_iff {key : List Key} : keyOf .location v = .ok key ↔
    ∃ file line, v.file.key = .ok file ∧ v.line.key = .ok line ∧ key = [file, line] := by
  constructor
  · intro h
    obtain ⟨file, hfile, h⟩ := bind_eq_ok.mp h
    obtain ⟨line, hline, h⟩ := bind_eq_ok.mp h
    cases h
    exact ⟨file, line, hfile, hline, rfl⟩
  · rintro ⟨file, line, hfile, hline, rfl⟩
    exact bind_eq_ok.mpr ⟨file, hfile, bind_eq_ok.mpr ⟨line, hline, rfl⟩⟩

theorem keyOf_exact_eq_ok_iff {key : List Key} : keyOf .exact v = .ok key ↔
    ∃ file line code source, v.file.key = .ok file ∧ v.line.key = .ok line ∧ v.code.key = .ok code ∧
      labelKey Source.name v.source = .ok source ∧ key = [file, line, code, source] := by
  constructor
  · intro h
    obtain ⟨file, hfile, h⟩ := bind_eq_ok.mp h
    obtain ⟨line, hline, h⟩ := bind_eq_ok.mp h
    obtain ⟨code, hcode, h⟩ := bind_eq_ok.mp h
    obtain ⟨source, hsource, h⟩ := bind_eq_ok.mp h
    cases h
    exact ⟨file, line, code, source, hfile, hline, hcode, hsource, rfl⟩
  · rintro ⟨file, line, code, source, hfile, hline, hcode, hsource, rfl⟩
    exact bind_eq_ok.mpr ⟨file, hfile, bind_eq_ok.mpr ⟨line, hline, bind_eq_ok.mpr ⟨code, hcode,
      bind_eq_ok.mpr ⟨source, hsource, rfl⟩⟩⟩⟩

/-- the exact key of a finding begins with the key of its place -/
theorem location_of_exact {key : List Key} (h : keyOf .exact v = .ok key) :
    ∃ file line rest, key = file :: line :: rest ∧ keyOf .location v = .ok [file, line] := by
  obtain ⟨file, line, code, source, hfile, hline, -, -, rfl⟩ := keyOf_exact_eq_ok_iff.mp h
  exact ⟨file, line, [code, source], rfl, keyOf_location_eq_ok_iff.mpr ⟨file, line, hfile, hline, rfl⟩⟩

/-- findings with one exact key have one place -/
theorem location_eq_of_exact_eq (hv : ∃ key, keyOf .exact v = .ok key) (hw : ∃ key, keyOf .exact w = .ok key)
    (same : keyFor .exact v = keyFor .exact w) : keyFor .location v = keyFor .location w := by
  obtain ⟨key, hkey⟩ := hv
  obtain ⟨key', hkey'⟩ := hw
  obtain ⟨file, line, rest, rfl, place⟩ := location_of_exact hkey
  obtain ⟨file', line', rest', rfl, place'⟩ := location_of_exact hkey'
  rw [← (keyOf_eq_ok_iff.mp hkey).2, ← (keyOf_eq_ok_iff.mp hkey').2] at same
  obtain ⟨rfl, tail⟩ := List.cons.inj same
  obtain ⟨rfl, -⟩ := List.cons.inj tail
  exact (keyOf_eq_ok_iff.mp place).2.symm.trans (keyOf_eq_ok_iff.mp place').2

/-- what is thinned out cannot be thinned out further -/
theorem deduplicate_again (h : deduplicate strategy vs = .ok ws) : deduplicate strategy ws = .ok ws := by
  obtain ⟨keyed, rfl⟩ := deduplicate_eq_ok_iff.mp h
  refine deduplicate_eq_ok_iff.mpr ⟨fun v hv => keyed v ((distinctBy_sublist _ vs).subset hv), ?_⟩
  exact (distinctBy_eq_self (List.pairwise_map.mpr (pairwise_distinctBy _ vs))).symm

/-- findings are thinned out by place as they are after they have been thinned out exactly -/
theorem deduplicate_location_of_exact (h : deduplicate .exact vs = .ok ws) :
    deduplicate .location ws = deduplicate .location vs := by
  obtain ⟨keyed, rfl⟩ := deduplicate_eq_ok_iff.mp h
  have placed : ∀ v ∈ vs, ∃ key, keyOf .location v = .ok key := by
    intro v hv
    obtain ⟨key, hkey⟩ := keyed v hv
    obtain ⟨file, line, rest, -, place⟩ := location_of_exact hkey
    exact ⟨_, place⟩
  have whole : deduplicate .location vs = .ok (distinctBy (keyFor .location) vs) :=
    deduplicate_eq_ok_iff.mpr ⟨placed, rfl⟩
  rw [whole]
  refine deduplicate_eq_ok_iff.mpr ⟨fun v hv => placed v ((distinctBy_sublist _ vs).subset hv), ?_⟩
  refine (distinctBy_distinctBy ?_).symm
  intro v hv w hw same
  exact location_eq_of_exact_eq (keyed v hv) (keyed w hw) same

/-! ### The first of each key in merged findings -/

/-- whether a finding is left of its key: it is the finding of some number of an analyzer, no finding of the key
lies before it, and it lies before those of the key that its analyzer found earlier -/
structure IsSurvivor (strategy : Strategy) (order : List String) (reports : List Report) (r : Report)
    (n : ℕ) (w : Violation) : Prop where
  place : r.violations[n]? = some w
  least : ∀ r' ∈ reports, r'.success = true → ∀ v ∈ r'.violations, keyFor strategy v = keyFor strategy w →
    Place.before (seat order (r'.engine, v)).1 (seat order (r.engine, w)).1 = .ok false
  earliest : ∀ m < n, ∀ v, r.violations[m]? = some v → keyFor strategy v = keyFor strategy w →
    Place.before (seat order (r.engine, w)).1 (seat order (r.engine, v)).1 = .ok true

/-- an item of joined lists has its place in one of them, and so have the others of that list -/
theorem exists_of_getElem?_flatMap {α β : Type} {f : α → List β} {l : List α} {i : ℕ} {b : β}
    (h : (l.flatMap f)[i]? = some b) :
    ∃ a ∈ l, ∃ k n, i = k + n ∧ (f a)[n]? = some b ∧
      ∀ m c, (f a)[m]? = some c → (l.flatMap f)[k + m]? = some c := by
  induction l generalizing i with
  | nil => simp at h
  | cons a rest ih =>
    rw [List.flatMap_cons] at h ⊢
    by_cases within : i < (f a).length
    · rw [List.getElem?_append_left within] at h
      refine ⟨a, List.mem_cons_self, 0, i, by omega, h, ?_⟩
      intro m c hc
      have inside : m < (f a).length := (List.getElem?_eq_some_iff.mp hc).1
      rw [Nat.zero_add, List.getElem?_append_left inside, hc]
    · rw [List.getElem?_append_right (by omega)] at h
      obtain ⟨a', ha', k, n, number, here, others⟩ := ih h
      refine ⟨a', List.mem_cons_of_mem a ha', (f a).length + k, n, by omega, here, ?_⟩
      intro m c hc
      have behind : (f a).length + k + m - (f a).length = k + m := by omega
      rw [List.getElem?_append_right (by omega), behind]
      exact others m c hc

/-- a finding that is merged has its number in a report, and so have the others of that report -/
theorem exists_of_getElem?_tagged {i : ℕ} {t : String × Violation} (h : (tagged reports)[i]? = some t) :
    ∃ r ∈ reports, r.success = true ∧ r.engine = t.1 ∧ ∃ k n, i = k + n ∧ r.violations[n]? = some t.2 ∧
      ∀ m v, r.violations[m]? = some v → (tagged reports)[k + m]? = some (r.engine, v) := by
  obtain ⟨r, hr, k, n, number, here, others⟩ := exists_of_getElem?_flatMap h
  obtain ⟨mem, success⟩ := List.mem_filter.mp hr
  rw [List.getElem?_map, Option.map_eq_some_iff] at here
  obtain ⟨v, hv, rfl⟩ := here
  refine ⟨r, mem, success, rfl, k, n, number, hv, ?_⟩
  intro m u hu
  refine others m _ ?_
  rw [List.getElem?_map, hu]
  rfl

/-- what is left of a key among merged findings is the earliest of the least -/
theorem isSurvivor_of_merge (merged : merge reports order = .ok vs) (files : IsComparable (vs.map (·.file)))
    (lines : IsComparable (vs.map (·.line))) (hw : w ∈ distinctBy (keyFor strategy) vs) :
    ∃ r ∈ reports, r.success = true ∧ ∃ n, IsSurvivor strategy order reports r n w := by
  obtain ⟨-, -, rfl⟩ := merge_eq_ok_iff.mp merged
  have among : ∀ t ∈ tagged reports,
      t.2 ∈ ((tagged reports).mergeSort (mayPrecede order)).map Prod.snd := fun t ht =>
    List.mem_map_of_mem (List.mem_mergeSort.mpr ht)
  have tagged_files : IsComparable ((tagged reports).map (·.2.file)) := by
    refine files.of_subset fun x hx => ?_
    obtain ⟨t, ht, rfl⟩ := List.mem_map.mp hx
    exact List.mem_map_of_mem (among t ht)
  have tagged_lines : IsComparable ((tagged reports).map (·.2.line)) := by
    refine lines.of_subset fun x hx => ?_
    obtain ⟨t, ht, rfl⟩ := List.mem_map.mp hx
    exact List.mem_map_of_mem (among t ht)
  obtain ⟨α, _, f, files⟩ := tagged_files
  obtain ⟨β, _, g, lines⟩ := tagged_lines
  rw [distinctBy_map] at hw
  obtain ⟨t, ht, rfl⟩ := List.mem_map.mp hw
  obtain ⟨i, place, -, least, earliest⟩ :=
    (orders_mayPrecede order files lines).exists_first (mem_distinctBy.mp ht)
  have mem : t ∈ tagged reports := List.mem_of_getElem? place
  obtain ⟨r, hr, success, engine, k, n, rfl, here, others⟩ := exists_of_getElem?_tagged place
  have own : (r.engine, t.2) = t := by rw [engine]
  refine ⟨r, hr, success, n, here, ?_, ?_⟩
  · intro r' hr' success' v hv same
    have mem' : (r'.engine, v) ∈ tagged reports := mem_tagged.mpr ⟨r', hr', success', rfl, hv⟩
    have first := least _ mem' (by simpa using same)
    rw [mayPrecede_eq files lines mem mem', decide_eq_true_eq] at first
    rw [own, before_seat files lines mem' mem]
    simpa using first
  · intro m before v hv same
    have place' := others m v hv
    have mem' : (r.engine, v) ∈ tagged reports := List.mem_of_getElem? place'
    have last := earliest (k + m) (by omega) _ place' (by simpa using same)
    rw [mayPrecede_eq files lines mem' mem, decide_eq_false_iff_not, not_le] at last
    rw [own, before_seat files lines mem mem']
    simpa using last

/-! ### Thinning out -/

/-- typed findings have files and lines that can be put in order -/
theorem isComparable_of_isTyped (typed : ∀ v ∈ vs, v.IsTyped) :
    IsComparable (vs.map (·.file)) ∧ IsComparable (vs.map (·.line)) := by
  constructor
  · refine isComparable_of_texts ?_
    intro x hx
    obtain ⟨v, hv, rfl⟩ := List.mem_map.mp hx
    exact (typed v hv).file
  · refine isComparable_of_wholes ?_
    intro x hx
    obtain ⟨v, hv, rfl⟩ := List.mem_map.mp hx
    exact .inl (typed v hv).line

/-- **The first of each key is kept.** However findings are counted, thinning them out succeeds if they are
typed, and then leaves those before which no finding of their key stands, in their order: no key twice, and
none lost.  What is left cannot be thinned out further, and counts by place as all did if it is left exactly.
If the findings were merged, and their files and lines can be put in order, as those of typed findings can,
then what is left of each key is the earliest finding of its analyzer among the least of the key. -/
theorem first_of_each_key (strategy : Strategy) (vs : List Violation) :
    ((∀ v ∈ vs, v.IsTyped) → (∃ ws, deduplicate strategy vs = .ok ws) ∧
      IsComparable (vs.map (·.file)) ∧ IsComparable (vs.map (·.line))) ∧
    ∀ ws, deduplicate strategy vs = .ok ws →
      ws = firsts (keyFor strategy) vs ∧ ws.Sublist vs ∧ (ws.map (keyFor strategy)).Nodup ∧
      (∀ v ∈ vs, ∃ w ∈ ws, keyFor strategy w = keyFor strategy v) ∧
      deduplicate strategy ws = .ok ws ∧
      (strategy = .exact → deduplicate .location ws = deduplicate .location vs) ∧
      ∀ reports order, merge reports order = .ok vs → IsComparable (vs.map (·.file)) →
        IsComparable (vs.map (·.line)) →
          ∀ w ∈ ws, ∃ r ∈ reports, r.success = true ∧ ∃ n, IsSurvivor strategy order reports r n w := by
  constructor
  · intro typed
    refine ⟨⟨_, deduplicate_eq_ok_iff.mpr ⟨?_, rfl⟩⟩, isComparable_of_isTyped typed⟩
    exact fun v hv => exists_key_of_isTyped (typed v hv) strategy
  · intro ws thinned
    obtain ⟨keyed, kept⟩ := deduplicate_eq_ok_iff.mp thinned
    refine ⟨kept.trans (distinctBy_eq_firsts _ vs), ?_, ?_, ?_, deduplicate_again thinned, ?_, ?_⟩
    · exact kept ▸ distinctBy_sublist _ vs
    · rw [kept]
      exact List.pairwise_map.mpr (pairwise_distinctBy _ vs)
    · intro v hv
      rw [kept]
      exact exists_mem_distinctBy hv
    · rintro rfl
      exact deduplicate_location_of_exact thinned
    · intro reports order merged files lines w hw
      exact isSurvivor_of_merge merged files lines (kept ▸ hw)

/-- a finding at the first line of a file -/
def atTop (code : String) (severity : Severity) : Violation :=
  ⟨.text "a.ts", .int 1, .text code, .known .style, .known severity, .known .custom, .null, .null, .null, .null⟩

/-- reports of two analyzers about one place, that of the second with the graver finding -/
def twoReports : List Report :=
  [⟨"second", [atTop "x" .warn, atTop "y" .error], .zero, true, none, .none⟩,
    ⟨"first", [atTop "z" .warn, atTop "w" .warn], .zero, true, none, .none⟩]

theorem atTop_isTyped (code : String) (severity : Severity) : (atTop code severity).IsTyped :=
  ⟨⟨_, rfl⟩, ⟨_, rfl⟩, ⟨_, rfl⟩, ⟨_, rfl⟩, ⟨_, rfl⟩, ⟨_, rfl⟩⟩

theorem merge_twoReports : merge twoReports ["first", "second"] =
    .ok [atTop "z" .warn, atTop "w" .warn, atTop "y" .error, atTop "x" .warn] := by
  refine merge_eq_ok_iff.mpr ⟨?_, by decide +kernel, ?_⟩
  · intro t ht
    have named : t = ("second", atTop "x" .warn) ∨ t = ("second", atTop "y" .error) ∨
        t = ("first", atTop "z" .warn) ∨ t = ("first", atTop "w" .warn) := by
      simpa [tagged, twoReports] using ht
    rcases named with rfl | rfl | rfl | rfl <;> exact ⟨_, rfl⟩
  · have graver : mayPrecede ["first", "second"] ("second", atTop "x" .warn) ("second", atTop "y" .error) =
        false := by decide +kernel
    have tied : mayPrecede ["first", "second"] ("first", atTop "z" .warn) ("first", atTop "w" .warn) =
        true := by decide +kernel
    have led : ∀ code ∈ ["z", "w"], mayPrecede ["first", "second"] ("second", atTop "y" .error)
        ("first", atTop code .warn) = false := by decide +kernel
    simp [tagged, twoReports, List.mergeSort, graver, tied, led]

/-- the finding that is left of that place is the earlier one of the first analyzer -/
theorem first_of_each_key_place :
    ∃ ws, deduplicate .location [atTop "z" .warn, atTop "w" .warn, atTop "y" .error, atTop "x" .warn] = .ok ws ∧
      ws.map (·.code.key?) = [some (.text "z")] ∧
      ∀ w ∈ ws, ∃ r ∈ twoReports, ∃ n, IsSurvivor .location ["first", "second"] twoReports r n w := by
  obtain ⟨returns, first⟩ :=
    first_of_each_key .location [atTop "z" .warn, atTop "w" .warn, atTop "y" .error, atTop "x" .warn]
  obtain ⟨⟨ws, thinned⟩, files, lines⟩ := returns (by simp [atTop_isTyped])
  obtain ⟨kept, -, -, -, -, -, survivors⟩ := first ws thinned
  refine ⟨ws, thinned, ?_, ?_⟩
  · rw [kept]
    decide +kernel
  · intro w hw
    obtain ⟨r, hr, -, n, survivor⟩ := survivors twoReports ["first", "second"] merge_twoReports files lines w hw
    exact ⟨r, hr, n, survivor⟩

end Findings

end LintLedger
