import LintLedger.Path
import LintLedger.Proofs.Text.Pieces
import Mathlib

/-!
# One spelling for each place

Read name by name, a text leads to a place below the root of the file system (`location`).  Inside a directory,
that is also where the path that it spells is resolved to (`resolve_join_ofText`), and the text that is kept for it
is made of the names below the directory (`textFrom_of_inside`).  A path is read back from its text (`ofText_text`);
so each place has one spelling, and a text that is kept already stays as it is (`textFrom_canonical`).
-/

namespace LintLedger.Path

variable {home rest : List String} {s t : String} {p : Path} {c : Char}

/-! ### Places -/

/-- the names between the slashes of a text -/
def names (s : String) : List String := (Text.pieces '/' s.toList).map String.ofList

/-- where a name leads from a place: nowhere if it is empty or a dot, up if it is two dots, down otherwise -/
def walk (place : List String) (name : String) : List String :=
  if name = "" ∨ name = "." then place else if name = ".." then place.dropLast else place ++ [name]

/-- where a text leads from a place, or from the root of the file system if it begins with a slash -/
def location (home : List String) (s : String) : List String :=
  (names s).foldl walk (if s.toList.head? = some '/' then [] else home)

/-- whether a text is the name of something: it says where to go, and that is down -/
structure IsName (name : String) : Prop where
  part : isPart name = true
  down : name ≠ ".."
  plain : '/' ∉ name.toList

theorem isPart_iff : isPart s = true ↔ s ≠ "" ∧ s ≠ "." := by
  simp [isPart]

theorem not_mem_of_mem_names {name : String} (h : name ∈ names s) : '/' ∉ name.toList := by
  obtain ⟨piece, hpiece, rfl⟩ := List.mem_map.mp h
  rw [String.toList_ofList]
  exact fun slash => (Text.exists_mem_pieces_iff.mp ⟨piece, hpiece, slash⟩).2 rfl

theorem walk_of_isName {place : List String} (h : IsName s) : walk place s = place ++ [s] := by
  have part := isPart_iff.mp h.part
  rw [walk, if_neg (not_or.mpr part), if_neg h.down]

theorem foldl_walk_of_isName (tidy : ∀ name ∈ rest, IsName name) : rest.foldl walk home = home ++ rest := by
  induction rest generalizing home with
  | nil => rw [List.foldl_nil, List.append_nil]
  | cons name rest ih =>
    rw [List.forall_mem_cons] at tidy
    rw [List.foldl_cons, walk_of_isName tidy.1, ih tidy.2, List.append_assoc, List.singleton_append]

/-- every place is told by names -/
theorem isName_of_mem_location (tidy : ∀ name ∈ home, IsName name) : ∀ name ∈ location home s, IsName name := by
  have step : ∀ ns : List String, (∀ name ∈ ns, '/' ∉ name.toList) → ∀ place : List String,
      (∀ name ∈ place, IsName name) → ∀ name ∈ ns.foldl walk place, IsName name := by
    intro ns
    induction ns with
    | nil => exact fun _ _ tidy => tidy
    | cons first ns ih =>
      intro plain place tidy
      rw [List.forall_mem_cons] at plain
      refine ih plain.2 _ ?_
      unfold walk
      split
      · exact tidy
      · rename_i part
        split
        · exact fun name mem => tidy name (List.mem_of_mem_dropLast mem)
        · rename_i down
          rw [List.forall_mem_append, List.forall_mem_singleton]
          exact ⟨tidy, isPart_iff.mpr (not_or.mp part), down, plain.1⟩
  refine step _ (fun name => not_mem_of_mem_names) _ ?_
  split
  · exact fun _ => nofun
  · exact tidy

/-- what a text adds to the place from where it leads are names that stand in it -/
theorem mem_names_of_location (h : location home s = home ++ rest) : ∀ name ∈ rest, name ∈ names s := by
  have step : ∀ ns : List String, ns ⊆ names s → ∀ front added : List String, front <+: home → added ⊆ names s →
      ∃ front' added', ns.foldl walk (front ++ added) = front' ++ added' ∧ front' <+: home ∧ added' ⊆ names s := by
    intro ns
    induction ns with
    | nil => exact fun _ front added within own => ⟨front, added, rfl, within, own⟩
    | cons name ns ih =>
      intro mem front added within own
      have later := ih (List.subset_of_cons_subset mem)
      rw [List.foldl_cons, walk]
      split
      · exact later front added within own
      · split
        · by_cases none : added = []
          · subst none
            rw [List.append_nil, ← List.append_nil front.dropLast]
            exact later _ _ ((List.dropLast_prefix front).trans within) own
          · rw [List.dropLast_append_of_ne_nil none]
            exact later _ _ within fun x mem => own (List.mem_of_mem_dropLast mem)
        · rw [List.append_assoc]
          exact later _ _ within (List.append_subset.mpr ⟨own, by simpa using mem List.mem_cons_self⟩)
  obtain ⟨front, added, same, ⟨left, rfl⟩, own⟩ :
      ∃ front added, location home s = front ++ added ∧ front <+: home ∧ added ⊆ names s := by
    unfold location
    split
    · exact step _ (List.Subset.refl _) [] [] (List.nil_prefix ..) (List.nil_subset _)
    · have := step _ (List.Subset.refl _) home [] List.prefix_rfl (List.nil_subset _)
      rwa [List.append_nil] at this
  rw [h, List.append_assoc] at same
  exact fun name mem => own (List.append_cancel_left same ▸ List.mem_append_right left mem)

/-! ### Paths that are resolved -/

theorem foldl_cancel (ns done : List String) :
    ((ns.filter isPart).foldl cancel done).reverse = ns.foldl walk done.reverse := by
  induction ns generalizing done with
  | nil => rfl
  | cons name ns ih =>
    rw [List.foldl_cons]
    by_cases part : isPart name = true
    · rw [List.filter_cons_of_pos part, List.foldl_cons, ih, cancel, walk, if_neg (not_or.mpr (isPart_iff.mp part))]
      split
      · rw [List.dropLast_reverse]
      · rw [List.reverse_cons]
    · rw [List.filter_cons_of_neg part, ih, walk, if_pos]
      rw [isPart_iff] at part
      tauto

theorem isAbsolute_ofText : (ofText s).isAbsolute = true ↔ s.toList.head? = some '/' := by
  unfold ofText isAbsolute anchorOf
  split <;> simp_all [List.head?_eq_some_iff]

/-- a text spells a path that is resolved to the place to which it leads -/
theorem resolve_ofText (s : String) : (ofText s).resolve = ⟨.root, location [] s⟩ := by
  unfold resolve location
  rw [ite_self]
  exact congrArg (Path.mk .root) (foldl_cancel (names s) [])

/-- a path that a text spells is resolved, from a directory, to the place to which the text leads from there -/
theorem resolve_join_ofText (tidy : ∀ name ∈ home, IsName name) (s : String) :
    ((⟨.root, home⟩ : Path).join (ofText s)).resolve = ⟨.root, location home s⟩ := by
  unfold join location
  split
  · rename_i absolute
    rw [resolve_ofText, location, ite_self, if_pos (isAbsolute_ofText.mp absolute)]
  · rename_i relative
    have own : home.filter isPart = home := List.filter_eq_self.mpr fun name mem => (tidy name mem).part
    have whole : ((home ++ (names s).filter isPart).foldl cancel []).reverse = (names s).foldl walk home := by
      nth_rewrite 1 [← own]
      rw [← List.filter_append, foldl_cancel, List.foldl_append, List.reverse_nil, foldl_walk_of_isName tidy,
        List.nil_append]
    rw [if_neg fun slash => relative (isAbsolute_ofText.mpr slash)]
    exact congrArg (Path.mk .root) whole

theorem below?_eq_some_iff {ds parts : List String} : below? ds parts = some rest ↔ parts = ds ++ rest := by
  induction ds generalizing parts with
  | nil => exact Option.some_inj
  | cons d ds ih =>
    cases parts with
    | nil => simp [below?]
    | cons part parts =>
      rw [below?, List.cons_append, List.cons.injEq]
      split
      · rename_i same
        rw [ih, and_iff_right same.symm]
      · rename_i other
        simp [Ne.symm other]

/-! ### Texts of paths -/

/-- whether a path is spelt by some text -/
def IsSpelt (p : Path) : Prop := ∀ part ∈ p.parts, isPart part = true ∧ '/' ∉ part.toList

theorem isSpelt_ofText (s : String) : IsSpelt (ofText s) := by
  intro part mem
  obtain ⟨own, part'⟩ := List.mem_filter.mp (show part ∈ (names s).filter isPart from mem)
  exact ⟨part', not_mem_of_mem_names own⟩

theorem names_intercalate (some : rest ≠ []) (plain : ∀ part ∈ rest, '/' ∉ part.toList) :
    names (String.intercalate "/" rest) = rest := by
  have toList : (String.intercalate "/" rest).toList = List.intercalate ['/'] (rest.map String.toList) :=
    String.toList_intercalate ..
  unfold names
  rw [toList, Text.pieces_intercalate (by simpa using some) (by simpa using plain), List.map_map]
  simp

theorem head?_intercalate (h : IsSpelt p) (some : p.parts ≠ []) :
    ∃ c tail, (String.intercalate "/" p.parts).toList = c :: tail ∧ c ≠ '/' := by
  obtain ⟨part, rest, parts⟩ := List.exists_cons_of_ne_nil some
  obtain ⟨own, plain⟩ := h part (parts ▸ List.mem_cons_self)
  obtain ⟨c, tail, chars⟩ := List.exists_cons_of_ne_nil (mt String.toList_eq_nil_iff.mp (isPart_iff.mp own).1)
  have other : c ≠ '/' := by
    rintro rfl
    exact plain (chars ▸ List.mem_cons_self)
  rw [parts]
  cases rest with
  | nil => exact ⟨c, tail, by rw [String.intercalate_singleton, chars], other⟩
  | cons next rest =>
    rw [String.intercalate_cons_cons, String.toList_append, String.toList_append, chars]
    exact ⟨c, _, rfl, other⟩

theorem text_of_ne_nil (h : IsSpelt p) (some : p.parts ≠ []) :
    p.text = p.anchor.slashes ++ String.intercalate "/" p.parts := by
  obtain ⟨c, tail, begins, -⟩ := head?_intercalate h some
  refine if_neg fun empty => ?_
  have chars := congrArg String.toList empty
  simp [begins] at chars

/-- a slash in front adds no part -/
theorem filter_pieces_slash (cs : List Char) : ((Text.pieces '/' ('/' :: cs)).map String.ofList).filter isPart =
    ((Text.pieces '/' cs).map String.ofList).filter isPart := by
  rw [Text.pieces, if_pos rfl, List.map_cons]
  exact List.filter_cons_of_neg (by decide)

/-- a path is read back from its text -/
theorem ofText_text (h : IsSpelt p) : ofText p.text = p := by
  obtain ⟨anchor, parts⟩ := p
  by_cases none : parts = []
  · subst none
    cases anchor <;> decide
  · obtain ⟨c, tail, begins, other⟩ := head?_intercalate h none
    have own : (names (String.intercalate "/" parts)).filter isPart = parts := by
      rw [names_intercalate none fun part mem => (h part mem).2]
      exact List.filter_eq_self.mpr fun part mem => (h part mem).1
    unfold names at own
    rw [begins] at own
    unfold ofText
    rw [text_of_ne_nil h none, String.toList_append, begins]
    -- in front of the first name there are as many empty ones as there are slashes
    cases anchor with
    | relative => exact congrArg₂ Path.mk (by simp [Anchor.slashes, anchorOf, other]) own
    | root =>
      rw [show Anchor.root.slashes.toList = ['/'] by decide]
      exact congrArg₂ Path.mk (by simp [anchorOf, other]) ((filter_pieces_slash _).trans own)
    | doubled =>
      rw [show Anchor.doubled.slashes.toList = ['/', '/'] by decide]
      exact congrArg₂ Path.mk (by simp [anchorOf, other])
        ((filter_pieces_slash _).trans ((filter_pieces_slash _).trans own))

/-! ### The text that is kept -/

theorem mem_toList_iff (slash : c ≠ '/') (dot : c ≠ '.') :
    c ∈ s.toList ↔ ∃ part ∈ (ofText s).parts, c ∈ part.toList := by
  have pieces : (∃ piece ∈ Text.pieces '/' s.toList, c ∈ piece) ↔ c ∈ s.toList :=
    Text.exists_mem_pieces_iff.trans (and_iff_left slash)
  rw [← pieces]
  constructor
  · rintro ⟨piece, mem, own⟩
    refine ⟨String.ofList piece, List.mem_filter.mpr ⟨List.mem_map_of_mem mem, ?_⟩, String.toList_ofList ▸ own⟩
    -- neither an empty name nor a dot holds the character
    rw [isPart_iff]
    constructor
    · intro same
      rw [← String.toList_ofList (l := piece), same] at own
      exact absurd own List.not_mem_nil
    · intro same
      rw [← String.toList_ofList (l := piece), same] at own
      exact dot (List.mem_singleton.mp own)
  · rintro ⟨part, mem, own⟩
    obtain ⟨piece, mem', rfl⟩ := List.mem_map.mp (List.mem_of_mem_filter mem)
    rw [String.toList_ofList] at own
    exact ⟨piece, mem', own⟩

/-- the spelling of a text holds a character that is neither a slash nor a dot just if the text does -/
theorem mem_text_ofText_iff (slash : c ≠ '/') (dot : c ≠ '.') : c ∈ (ofText s).text.toList ↔ c ∈ s.toList := by
  rw [mem_toList_iff slash dot, ofText_text (isSpelt_ofText s), ← mem_toList_iff slash dot]

theorem textFrom_of_nul {dir : Path} (nul : '\x00' ∈ s.toList) : dir.textFrom s = (ofText s).text := by
  unfold textFrom
  exact if_pos (by simpa using nul)

theorem textFrom_of_outside (tidy : ∀ name ∈ home, IsName name) (outside : ¬home <+: location home s) :
    (⟨.root, home⟩ : Path).textFrom s = (ofText s).text := by
  have elsewhere : below? home (location home s) = none := by
    rw [Option.eq_none_iff_forall_not_mem]
    exact fun rest below => outside ⟨rest, (below?_eq_some_iff.mp below).symm⟩
  unfold textFrom
  dsimp only
  rw [resolve_join_ofText tidy, elsewhere, ite_self]

theorem textFrom_of_inside (tidy : ∀ name ∈ home, IsName name) (plain : '\x00' ∉ s.toList)
    (inside : location home s = home ++ rest) : (⟨.root, home⟩ : Path).textFrom s = text ⟨.relative, rest⟩ := by
  unfold textFrom
  dsimp only
  rw [resolve_join_ofText tidy, if_neg (by simpa using plain), below?_eq_some_iff.mpr inside]

theorem isSpelt_of_isName (below : ∀ name ∈ rest, IsName name) : IsSpelt ⟨.relative, rest⟩ :=
  fun name mem => ⟨(below name mem).part, (below name mem).plain⟩

/-- the text of names that lead down is made of these names -/
theorem names_text (below : ∀ name ∈ rest, IsName name) (some : rest ≠ []) :
    names (text ⟨.relative, rest⟩) = rest ∧ (text ⟨.relative, rest⟩).toList.head? ≠ .some '/' := by
  have joined : text ⟨.relative, rest⟩ = String.intercalate "/" rest :=
    (text_of_ne_nil (isSpelt_of_isName below) some).trans String.empty_append
  obtain ⟨c, tail, begins, other⟩ := head?_intercalate (isSpelt_of_isName below) some
  rw [joined, names_intercalate some fun name mem => (below name mem).plain, begins]
  exact ⟨rfl, by simpa using other⟩

/-- and it leads to the place below -/
theorem location_text (below : ∀ name ∈ rest, IsName name) :
    location home (text ⟨.relative, rest⟩) = home ++ rest := by
  by_cases none : rest = []
  · subst none
    exact (List.append_nil home).symm
  · obtain ⟨read, relative⟩ := names_text below none
    rw [location, read, if_neg relative, foldl_walk_of_isName below]

/-- where a text leads from the directory of another -/
def locationIn (root s : String) : List String := location (location [] root) s

/-- whether a text leads to a place inside the directory of another -/
def IsInside (root s : String) : Prop := location [] root <+: locationIn root s

instance (root s : String) : Decidable (IsInside root s) := inferInstanceAs (Decidable (_ <+: _))

/-- the text that is kept of another in a directory -/
def keptIn (root s : String) : String := (ofText root).resolve.textFrom s

/-- **One spelling for each place.**  Inside a directory, whatever its root is, texts are kept alike just if they
lead to the same place, and then by names alone that lead down from the directory, which itself is a dot.  A text
that is kept already stays as it is, wherever it leads. -/
theorem textFrom_canonical (root : String) :
    (∀ s t, '\x00' ∉ s.toList → '\x00' ∉ t.toList → IsInside root s → IsInside root t →
      (keptIn root s = keptIn root t ↔ locationIn root s = locationIn root t)) ∧
    (∀ s, '\x00' ∉ s.toList → IsInside root s →
      (locationIn root s = location [] root → keptIn root s = ".") ∧
      (locationIn root s ≠ location [] root → (keptIn root s).toList.head? ≠ some '/' ∧
        ∀ name ∈ names (keptIn root s), name ≠ "" ∧ name ≠ "." ∧ name ≠ "..")) ∧
    ∀ s, keptIn root (keptIn root s) = keptIn root s := by
  unfold IsInside locationIn keptIn
  rw [resolve_ofText]
  generalize same : location [] root = home
  have tidy : ∀ name ∈ home, IsName name := same ▸ isName_of_mem_location fun _ => nofun
  -- the names that lead to a place inside the directory from there
  have below : ∀ {s rest}, home ++ rest = location home s → ∀ name ∈ rest, IsName name :=
    fun {s rest} inside name mem => isName_of_mem_location tidy name (inside ▸ List.mem_append_right home mem)
  refine ⟨?_, ?_, fun s => ?_⟩
  · rintro s t plain plain' ⟨rest, inside⟩ ⟨rest', inside'⟩
    rw [textFrom_of_inside tidy plain inside.symm, textFrom_of_inside tidy plain' inside'.symm, ← inside, ← inside',
      List.append_cancel_left_eq]
    refine ⟨fun same => ?_, fun same => same ▸ rfl⟩
    have read := congrArg ofText same
    rw [ofText_text (isSpelt_of_isName (below inside)), ofText_text (isSpelt_of_isName (below inside'))] at read
    exact congrArg parts read
  · rintro s plain ⟨rest, inside⟩
    rw [textFrom_of_inside tidy plain inside.symm, ← inside, Ne, List.append_right_eq_self]
    constructor
    · rintro rfl
      rfl
    · intro some
      obtain ⟨read, relative⟩ := names_text (below inside) some
      rw [read]
      exact ⟨relative, fun name mem =>
        have own := below inside name mem
        ⟨(isPart_iff.mp own.part).1, (isPart_iff.mp own.part).2, own.down⟩⟩
  · by_cases nul : '\x00' ∈ s.toList
    · rw [textFrom_of_nul nul, textFrom_of_nul ((mem_text_ofText_iff (by decide) (by decide)).mpr nul),
        ofText_text (isSpelt_ofText s)]
    · by_cases inside : home <+: location home s
      · obtain ⟨rest, inside⟩ := inside
        rw [textFrom_of_inside tidy nul inside.symm]
        refine textFrom_of_inside tidy ?_ (location_text (below inside))
        -- the names that are kept stand in the text
        rw [mem_toList_iff (by decide) (by decide), ofText_text (isSpelt_of_isName (below inside))]
        rintro ⟨name, mem, own⟩
        obtain ⟨piece, hpiece, rfl⟩ := List.mem_map.mp (mem_names_of_location inside.symm name mem)
        rw [String.toList_ofList] at own
        exact nul (Text.exists_mem_pieces_iff.mp ⟨piece, hpiece, own⟩).1
      · have same := ofText_text (isSpelt_ofText s)
        have place := resolve_join_ofText tidy (ofText s).text
        rw [same, resolve_join_ofText tidy s, Path.mk.injEq] at place
        rw [textFrom_of_outside tidy inside, textFrom_of_outside tidy (place.2 ▸ inside), same]

/-- one file, as it is told from the project and from the root of the file system -/
theorem textFrom_canonical_file :
    ('\x00' ∉ "src//./a.ts".toList ∧ '\x00' ∉ "/p/../p/lib/../src/a.ts".toList ∧
      IsInside "/p" "src//./a.ts" ∧ IsInside "/p" "/p/../p/lib/../src/a.ts") ∧
    keptIn "/p" "src//./a.ts" = keptIn "/p" "/p/../p/lib/../src/a.ts" ∧
    (keptIn "/p" "src//./a.ts").toList.head? ≠ some '/' := by
  have plain : '\x00' ∉ "src//./a.ts".toList := by decide
  have plain' : '\x00' ∉ "/p/../p/lib/../src/a.ts".toList := by decide
  have inside : IsInside "/p" "src//./a.ts" := by decide
  have inside' : IsInside "/p" "/p/../p/lib/../src/a.ts" := by decide
  obtain ⟨alike, shape, -⟩ := textFrom_canonical "/p"
  exact ⟨⟨plain, plain', inside, inside'⟩, (alike _ _ plain plain' inside inside').mpr (by decide),
    ((shape _ plain inside).2 (by decide)).1⟩

end LintLedger.Path
