import LintLedger.Proofs.Store.Storable
import LintLedger.Proofs.Violation.Classes
import Mathlib

/-!
# What a fingerprint tells apart

The text behind a fingerprint is made of seven parts with a separator between each two of them.  A text
can be cut at its separators in one way only if it is known how many of them stand in each part
(`parts_unique`).  Line, category, severity and source never hold one, so two violations of one text agree
in their classes.  But file, message and rule may hold separators, and nothing marks these: the text says
how many there are in all three together, and not where a part ends.  So two violations of one text
agree in every part just if their files hold equally many separators and so do their rules
(`told_apart`); otherwise the end of a message can be taken for a rule (`shifted_separator`).
-/

namespace LintLedger.Violation

open Outcome

/-! ### Cutting at separators -/

/-- a run of characters is cut in one way at a separator before which a number of them is to stand -/
theorem cut_unique {c : Char} {xs xs' ys ys' : List Char} (whole : xs ++ c :: ys = xs' ++ c :: ys')
    (same : xs.count c = xs'.count c) : xs = xs' ∧ ys = ys' := by
  induction xs generalizing xs' with
  | nil =>
    cases xs' with
    | nil => exact ⟨rfl, (List.cons.inj whole).2⟩
    | cons x rest =>
      obtain ⟨rfl, -⟩ := List.cons.inj whole
      rw [List.count_nil, List.count_cons_self] at same
      omega
  | cons x rest ih =>
    cases xs' with
    | nil =>
      obtain ⟨rfl, -⟩ := List.cons.inj whole
      rw [List.count_nil, List.count_cons_self] at same
      omega
    | cons x' rest' =>
      rw [List.cons_append, List.cons_append, List.cons.injEq] at whole
      obtain ⟨rfl, whole⟩ := whole
      rw [List.count_cons, List.count_cons, Nat.add_right_cancel_iff] at same
      obtain ⟨rfl, rfl⟩ := ih whole same
      exact ⟨rfl, rfl⟩

/-- how many separators a text holds -/
def separators (s : String) : Nat := s.toList.count '\x1f'

/-- texts with a separator between each two of them -/
def joined (parts : List String) : String := String.intercalate partSeparator parts

variable {a b : String} {xs ys xs' ys' : List String}

theorem toList_joined_append (hx : xs ≠ []) (hy : ys ≠ []) :
    (joined (xs ++ ys)).toList = (joined xs).toList ++ '\x1f' :: (joined ys).toList := by
  unfold joined
  rw [String.intercalate_append_of_ne_nil hx hy, String.toList_append, String.toList_append,
    List.append_assoc]
  rfl

theorem separators_joined_append (hx : xs ≠ []) (hy : ys ≠ []) :
    separators (joined (xs ++ ys)) = separators (joined xs) + separators (joined ys) + 1 := by
  unfold separators
  rw [toList_joined_append hx hy, List.count_append, List.count_cons_self]
  omega

/-- joined texts can be parted after as many separators as stand in the first of them -/
theorem joined_append_unique (hx : xs ≠ []) (hy : ys ≠ []) (hx' : xs' ≠ []) (hy' : ys' ≠ [])
    (whole : joined (xs ++ ys) = joined (xs' ++ ys'))
    (same : separators (joined xs) = separators (joined xs')) :
    joined xs = joined xs' ∧ joined ys = joined ys' := by
  have cut := congrArg String.toList whole
  rw [toList_joined_append hx hy, toList_joined_append hx' hy'] at cut
  obtain ⟨left, right⟩ := cut_unique cut same
  exact ⟨String.toList_inj.mp left, String.toList_inj.mp right⟩

/-- the separators of joined texts are their own and one between each two of them -/
theorem separators_joined (some : xs ≠ []) :
    separators (joined xs) + 1 = (xs.map separators).sum + xs.length := by
  induction xs with
  | nil => exact absurd rfl some
  | cons x rest ih =>
    have head : joined [x] = x := String.intercalate_singleton
    rw [List.map_cons, List.sum_cons, List.length_cons]
    cases rest with
    | nil => simp [head]
    | cons y rest =>
      have parted := separators_joined_append (List.cons_ne_nil x []) (List.cons_ne_nil y rest)
      rw [head, List.singleton_append] at parted
      have := ih (List.cons_ne_nil y rest)
      omega

/-- texts that hold as many separators each are joined in different ways if they differ -/
theorem parts_unique (whole : joined xs = joined ys) (same : xs.map separators = ys.map separators) :
    xs = ys := by
  induction xs generalizing ys with
  | nil =>
    rw [List.map_nil] at same
    exact (List.map_eq_nil_iff.mp same.symm).symm
  | cons x rest ih =>
    cases ys with
    | nil => cases same
    | cons y rest' =>
      rw [List.map_cons, List.map_cons, List.cons.injEq] at same
      cases rest with
      | nil =>
        obtain rfl := List.map_eq_nil_iff.mp same.2.symm
        unfold joined at whole
        rw [String.intercalate_singleton, String.intercalate_singleton] at whole
        rw [whole]
      | cons z rest =>
        have some : rest' ≠ [] := by
          rintro rfl
          cases same.2
        have head : ∀ s, joined [s] = s := fun s => String.intercalate_singleton
        obtain ⟨first, later⟩ := joined_append_unique (List.cons_ne_nil x []) (List.cons_ne_nil z rest)
          (List.cons_ne_nil y []) some whole (by rw [head, head, same.1])
        rw [head, head] at first
        rw [first, ih later same.2]

/-! ### Parts without separators -/

theorem mem_display_int {i : Int} {c : Char} (h : c ∈ (Value.int i).display.toList) :
    c = '-' ∨ c.isDigit = true := by
  have text : (Value.int i).display = Decimal.withSign (i < 0) (Decimal.digitText i.natAbs) := rfl
  have digit : c ∈ (Decimal.digitText i.natAbs).toList → c.isDigit = true := by
    unfold Decimal.digitText
    rw [String.toList_ofList]
    exact Nat.isDigit_of_mem_toDigits (by decide) (by decide)
  rw [text, Decimal.withSign] at h
  split at h
  · rw [String.toList_append, List.mem_append] at h
    rcases h with sign | rest
    · exact .inl (List.mem_singleton.mp sign)
    · exact .inr (digit rest)
  · exact .inr (digit h)

theorem separators_display_int (i : Int) : separators (Value.int i).display = 0 := by
  refine List.count_eq_zero.mpr fun h => ?_
  rcases mem_display_int h with sign | digit
  · cases sign
  · cases digit

theorem digitText_injective : Function.Injective Decimal.digitText := by
  intro m n same
  have digits := String.ofList_injective same
  rw [← Nat.ofDigitChars_ten_toDigits (n := m), digits, Nat.ofDigitChars_ten_toDigits]

/-- whole numbers are written differently -/
theorem display_int_injective {i j : Int} (same : (Value.int i).display = (Value.int j).display) : i = j := by
  have text : ∀ i : Int, (Value.int i).display =
      Decimal.withSign (i < 0) (Decimal.digitText i.natAbs) := fun _ => rfl
  -- a number below zero begins with a sign, which is no digit
  have unsigned : ∀ n m : Nat, Decimal.digitText n ≠ "-" ++ Decimal.digitText m := by
    intro n m same
    have sign : '-' ∈ (Decimal.digitText n).toList := by
      rw [same, String.toList_append]
      exact List.mem_append_left _ (List.mem_singleton_self _)
    rw [Decimal.digitText, String.toList_ofList] at sign
    cases Nat.isDigit_of_mem_toDigits (by decide) (by decide) sign
  rw [text, text, Decimal.withSign, Decimal.withSign] at same
  split at same <;> split at same <;> simp only [decide_eq_true_eq] at *
  · rw [String.append_right_inj] at same
    have := digitText_injective same
    omega
  · exact absurd same.symm (unsigned _ _)
  · exact absurd same (unsigned _ _)
  · have := digitText_injective same
    omega

theorem separators_category (c : Category) : separators c.name = 0 := by cases c <;> rfl

theorem separators_severity (s : Severity) : separators s.name = 0 := by cases s <;> rfl

theorem separators_source (s : Source) : separators s.name = 0 := by cases s <;> rfl

/-! ### Violations that are told apart -/

variable {v w : Violation}

/-- a violation that can be stored under a fingerprint: it has no problems, and its message and its rule
are texts or count as nothing -/
structure IsIdentifiable (v : Violation) : Prop where
  clean : v.problems = .ok []
  message : v.message.IsPart
  rule : v.rule.IsPart

/-- the rule of a violation as it is told from others: none is the same as an empty one -/
def ruleText (v : Violation) : String :=
  match v.rule with
  | .text s => s
  | _ => ""

/-- whether two violations agree in the seven parts that identify them -/
structure Agrees (v w : Violation) : Prop where
  file : v.file = w.file
  line : v.line = w.line
  wording : v.wording = w.wording
  rule : v.ruleText = w.ruleText
  category : v.category = w.category
  severity : v.severity = w.severity
  source : v.source = w.source

/-- the parts of a violation as they are joined -/
structure Parts (v : Violation) where
  file : String
  line : Int
  wording : String
  category : Category
  severity : Severity
  source : Source
  hasFile : v.file = .text file
  hasLine : v.line = .int line
  hasWording : v.wording = .text wording
  hasCategory : v.category = .known category
  hasSeverity : v.severity = .known severity
  hasSource : v.source = .known source

/-- the place, wording and rule of a violation, which may hold separators, and its line -/
def Parts.said (p : v.Parts) : List String :=
  [p.file, (Value.int p.line).display, p.wording, v.ruleText]

/-- the classes of a violation -/
def Parts.classes (p : v.Parts) : List String := [p.category.name, p.severity.name, p.source.name]

theorem said_ne_nil (p : v.Parts) : p.said ≠ [] := List.cons_ne_nil _ _

theorem classes_ne_nil (p : v.Parts) : p.classes ≠ [] := List.cons_ne_nil _ _

theorem partOr_rule (h : v.rule.IsPart) : partOr 3 v.rule "" = .ok v.ruleText := by
  unfold partOr ruleText
  split
  · rename_i truthy
    obtain ⟨s, hs⟩ := h truthy
    rw [hs]
    rfl
  · rename_i falsy
    cases hv : v.rule with
    | text s =>
      rw [hv, Value.truthy, Bool.not_eq_true', Bool.not_eq_false, String.isEmpty_iff] at falsy
      rw [falsy]
    | _ => rfl

/-- a violation that is identifiable has its parts, and they make the text behind its fingerprint -/
theorem IsIdentifiable.exists_parts (h : v.IsIdentifiable) :
    ∃ p : v.Parts, v.identityText = .ok (joined (p.said ++ p.classes)) := by
  obtain ⟨⟨file, hfile⟩, ⟨line, hline⟩, -, ⟨code, hcode⟩, ⟨category, hcategory⟩, ⟨severity, hseverity⟩,
    ⟨source, hsource⟩⟩ := exists_of_problems_eq_nil h.clean
  obtain ⟨wording, hwording, hmessage⟩ : ∃ s, v.wording = .text s ∧
      partOr 2 v.message v.code.display = .ok s := by
    unfold Violation.wording partOr
    split
    · rename_i truthy
      obtain ⟨s, hs⟩ := h.message truthy
      exact ⟨s, hs, by rw [hs]; rfl⟩
    · exact ⟨code, hcode, by rw [hcode]; rfl⟩
  refine ⟨⟨file, line, wording, category, severity, source, hfile, hline, hwording, hcategory, hseverity,
    hsource⟩, ?_⟩
  unfold identityText
  rw [identityParts_eq, hmessage, partOr_rule h.rule]
  unfold categoryValue severityValue sourceValue
  rw [hfile, hline, hcategory, hseverity, hsource]
  rfl

theorem separators_said (p : v.Parts) : p.said.map separators =
    [separators p.file, 0, separators p.wording, separators v.ruleText] := by
  simp [Parts.said, separators_display_int]

theorem separators_classes (p : v.Parts) : p.classes.map separators = [0, 0, 0] := by
  simp [Parts.classes, separators_category, separators_severity, separators_source]

/-- violations of one text have the same classes, and as many separators in all other parts together -/
theorem classes_eq_of_joined_eq {p : v.Parts} {q : w.Parts}
    (whole : joined (p.said ++ p.classes) = joined (q.said ++ q.classes)) :
    p.classes = q.classes ∧ separators p.file + separators p.wording + separators v.ruleText =
      separators q.file + separators q.wording + separators w.ruleText := by
  have count : ∀ {u : Violation} (r : u.Parts), separators (joined (r.said ++ r.classes)) =
      separators (joined r.said) + 3 ∧ separators (joined r.said) =
        separators r.file + separators r.wording + separators u.ruleText + 3 := by
    intro u r
    have said := separators_joined (said_ne_nil r)
    have classes := separators_joined (classes_ne_nil r)
    have parted := separators_joined_append (said_ne_nil r) (classes_ne_nil r)
    have four : r.said.length = 4 := rfl
    have three : r.classes.length = 3 := rfl
    rw [separators_said, four] at said
    rw [separators_classes, three] at classes
    simp only [List.sum_cons, List.sum_nil] at said classes
    omega
  obtain ⟨all, said⟩ := count p
  obtain ⟨all', said'⟩ := count q
  rw [whole] at all
  refine ⟨parts_unique ?_ (by rw [separators_classes, separators_classes]), by omega⟩
  exact (joined_append_unique (said_ne_nil p) (classes_ne_nil p) (said_ne_nil q) (classes_ne_nil q) whole
    (by omega)).2

/-- two violations agree just if they have the same parts -/
theorem agrees_iff_parts (p : v.Parts) (q : w.Parts) :
    v.Agrees w ↔ p.said = q.said ∧ p.classes = q.classes := by
  unfold Parts.said Parts.classes
  simp only [List.cons.injEq, and_true]
  constructor
  · rintro ⟨file, line, wording, rule, category, severity, source⟩
    rw [p.hasFile, q.hasFile] at file
    rw [p.hasLine, q.hasLine] at line
    rw [p.hasWording, q.hasWording] at wording
    rw [p.hasCategory, q.hasCategory] at category
    rw [p.hasSeverity, q.hasSeverity] at severity
    rw [p.hasSource, q.hasSource] at source
    exact ⟨⟨Value.text.inj file, by rw [Value.int.inj line], Value.text.inj wording, rule⟩, by rw [Label.known.inj category],
      by rw [Label.known.inj severity], by rw [Label.known.inj source]⟩
  · rintro ⟨⟨file, line, wording, rule⟩, category, severity, source⟩
    refine ⟨?_, ?_, ?_, rule, ?_, ?_, ?_⟩
    · rw [p.hasFile, q.hasFile, file]
    · rw [p.hasLine, q.hasLine, display_int_injective line]
    · rw [p.hasWording, q.hasWording, wording]
    · rw [p.hasCategory, q.hasCategory, category_name_injective category]
    · rw [p.hasSeverity, q.hasSeverity, severity_name_injective severity]
    · rw [p.hasSource, q.hasSource, source_name_injective source]

/-- **What a fingerprint tells apart.** Two violations that can be stored and have one text behind their
fingerprints are of the same classes.  They agree in every part just if they have one text, and their
files hold equally many separators, and their rules do; and if their digests do not collide, that is
just if they share a fingerprint and their files and rules hold equally many separators. -/
theorem told_apart (hv : v.IsIdentifiable) (hw : w.IsIdentifiable) :
    ∃ s t, v.identityText = .ok s ∧ w.identityText = .ok t ∧
      (s = t → v.category = w.category ∧ v.severity = w.severity ∧ v.source = w.source) ∧
      (v.Agrees w ↔ s = t ∧ separators v.file.display = separators w.file.display ∧
        separators v.ruleText = separators w.ruleText) ∧
      ((Digest.sha256 s = Digest.sha256 t → s = t) →
        (v.Agrees w ↔ v.fingerprint = w.fingerprint ∧
          separators v.file.display = separators w.file.display ∧
          separators v.ruleText = separators w.ruleText)) := by
  obtain ⟨p, hp⟩ := hv.exists_parts
  obtain ⟨q, hq⟩ := hw.exists_parts
  have agrees : v.Agrees w ↔ joined (p.said ++ p.classes) = joined (q.said ++ q.classes) ∧
      separators v.file.display = separators w.file.display ∧
      separators v.ruleText = separators w.ruleText := by
    rw [p.hasFile, q.hasFile]
    constructor
    · intro same
      obtain ⟨said, classes⟩ := (agrees_iff_parts p q).mp same
      have file : p.file = q.file := (List.cons.inj said).1
      exact ⟨by rw [said, classes], congrArg separators file, congrArg separators same.rule⟩
    · rintro ⟨whole, file, rule⟩
      obtain ⟨classes, count⟩ := classes_eq_of_joined_eq whole
      -- what is left of the separators stands in the wording
      have file' : separators p.file = separators q.file := file
      have wording : separators p.wording = separators q.wording := by omega
      have counts : (p.said ++ p.classes).map separators = (q.said ++ q.classes).map separators := by
        rw [List.map_append, List.map_append, separators_said, separators_said, separators_classes,
          separators_classes, file', wording, rule]
      have all := parts_unique whole counts
      rw [classes] at all
      exact (agrees_iff_parts p q).mpr ⟨List.append_cancel_right all, classes⟩
  refine ⟨_, _, hp, hq, fun whole => ?_, agrees, fun apart => ?_⟩
  · obtain ⟨classes, -⟩ := classes_eq_of_joined_eq whole
    simp only [Parts.classes, List.cons.injEq, and_true] at classes
    obtain ⟨category, severity, source⟩ := classes
    rw [p.hasCategory, q.hasCategory, p.hasSeverity, q.hasSeverity, p.hasSource, q.hasSource,
      category_name_injective category, severity_name_injective severity, source_name_injective source]
    exact ⟨rfl, rfl, rfl⟩
  · unfold fingerprint
    rw [agrees, hp, hq]
    refine and_congr_left fun _ => ⟨fun whole => by rw [whole], fun same => apart (Except.ok.inj same)⟩

/-- a finding of some wording and rule -/
def noted (message rule : String) : Violation :=
  ⟨.text "a.ts", .int 3, .text "x", .known .style, .known .warn, .known .eslint, .null, .text rule,
    .text message, .null⟩

theorem noted_isIdentifiable {message rule : String} (clean : (noted message rule).problems = .ok []) :
    (noted message rule).IsIdentifiable :=
  ⟨clean, fun _ => ⟨_, rfl⟩, fun _ => ⟨_, rfl⟩⟩

/-- Two findings that differ in their rules are told apart, though their wordings hold separators. -/
theorem told_apart_rules : (noted "m\x1fn" "r").IsIdentifiable ∧ (noted "m\x1fn" "s").IsIdentifiable ∧
    (noted "m\x1fn" "r").fingerprint ≠ (noted "m\x1fn" "s").fingerprint := by
  have first : (noted "m\x1fn" "r").IsIdentifiable := noted_isIdentifiable rfl
  have second : (noted "m\x1fn" "s").IsIdentifiable := noted_isIdentifiable rfl
  refine ⟨first, second, fun same => ?_⟩
  obtain ⟨s, t, hs, ht, -, -, told⟩ := told_apart first second
  obtain rfl : _ = s := Except.ok.inj hs
  obtain rfl : _ = t := Except.ok.inj ht
  have agrees := (told (fun same => absurd same (by decide +kernel))).mpr ⟨same, rfl, rfl⟩
  exact absurd agrees.rule (by decide)

/-- The end of a message with a separator in it can as well be the beginning of a rule. -/
theorem shifted_separator :
    (noted "m\x1fn" "r").IsIdentifiable ∧ (noted "m" "n\x1fr").IsIdentifiable ∧
      (noted "m\x1fn" "r").identityText = (noted "m" "n\x1fr").identityText ∧
      (noted "m\x1fn" "r").fingerprint = (noted "m" "n\x1fr").fingerprint ∧
      ¬(noted "m\x1fn" "r").Agrees (noted "m" "n\x1fr") := by
  have same : (noted "m\x1fn" "r").identityText = (noted "m" "n\x1fr").identityText := rfl
  refine ⟨noted_isIdentifiable rfl, noted_isIdentifiable rfl, same, ?_, fun agrees => ?_⟩
  · unfold fingerprint
    rw [same]
  · exact absurd agrees.rule (by decide)

end LintLedger.Violation
