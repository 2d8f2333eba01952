import LintLedger.Proofs.Outcome
import LintLedger.Proofs.Value.Comparable
import LintLedger.Yaml.Read
import Mathlib

/-!
# Mappings

A mapping holds no key twice (`IsDistinct`), and stays so when entries are put into it or laid over it.  What is found
in entries laid over others is what the upper ones say, or else what the lower ones do (`find?_overlay`).  Each mapping
that a text writes holds no key twice, whatever keys are repeated in the text or taken over from other mappings, and
all that it holds is written too (`IsWritten.isDistinct`, `IsWritten.of_mem`).
-/

namespace LintLedger.Value

variable {es : List (Value × Value)} {k v : Value} {name : String}

/-- whether no key comes twice -/
def IsDistinct (es : List (Value × Value)) : Prop := (es.map fun e => e.1.key?).Nodup

theorem key?_eq_text {s : String} : k.key? = some (.text s) ↔ k = .text s := by
  constructor
  · exact fun h => eq_text_of_key (Outcome.eq_ok_of_toOption h)
  · rintro rfl
    rfl

theorem keys_putEntry : (putEntry es k v).map (fun e => e.1.key?) =
    if k.key? ∈ es.map fun e => e.1.key? then es.map fun e => e.1.key? else (es.map fun e => e.1.key?) ++ [k.key?] := by
  have known : (es.any fun e => e.1.key? == k.key?) = true ↔ k.key? ∈ es.map fun e => e.1.key? := by
    rw [List.any_eq_true, List.mem_map]
    exact exists_congr fun e => and_congr_right fun _ => beq_iff_eq
  unfold putEntry
  by_cases there : k.key? ∈ es.map fun e => e.1.key?
  · rw [if_pos (known.mpr there), if_pos there, List.map_map]
    refine List.map_congr_left fun e _ => ?_
    dsimp only [Function.comp_apply]
    split <;> rfl
  · rw [if_neg (mt known.mp there), if_neg there, List.map_append]
    rfl

theorem IsDistinct.putEntry (h : IsDistinct es) (k v : Value) : IsDistinct (putEntry es k v) := by
  unfold IsDistinct
  rw [keys_putEntry]
  split
  · exact h
  · rename_i fresh
    exact List.nodup_append_comm.mp (List.nodup_cons.mpr ⟨fresh, h⟩)

/-- what an entry holds after an entry is put in was there before, or was put in -/
theorem eq_or_mem_of_mem_putEntry {e : Value × Value} (h : e ∈ putEntry es k v) : e.2 = v ∨ e ∈ es := by
  unfold putEntry at h
  split at h
  · obtain ⟨d, hd, rfl⟩ := List.mem_map.mp h
    split
    · exact .inl rfl
    · exact .inr hd
  · rcases List.mem_append.mp h with old | new
    · exact .inr old
    · exact .inl (List.mem_singleton.mp new ▸ rfl)

/-! ### What is found under a text -/

theorem find?_cons_self (v : Value) (es : List (Value × Value)) : find? ((.text name, v) :: es) name = some v := by
  simp [find?]

theorem find?_cons_of_ne (other : k ≠ .text name) (v : Value) (es : List (Value × Value)) :
    find? ((k, v) :: es) name = find? es name := by
  cases k with
  | text s =>
    have differs : s ≠ name := fun same => other (congrArg text same)
    simp [find?, differs]
  | _ => rfl

theorem find?_eq_none : find? es name = none ↔ ∀ e ∈ es, e.1 ≠ .text name := by
  induction es with
  | nil => exact iff_of_true rfl nofun
  | cons e rest ih =>
    obtain ⟨k, v⟩ := e
    rw [List.forall_mem_cons]
    by_cases same : k = .text name
    · subst same
      rw [find?_cons_self]
      exact iff_of_false nofun fun h => h.1 rfl
    · rw [find?_cons_of_ne same, ih, and_iff_right same]

theorem mem_of_find? (found : find? es name = some v) : (.text name, v) ∈ es := by
  induction es with
  | nil => cases found
  | cons e rest ih =>
    obtain ⟨k, w⟩ := e
    by_cases same : k = .text name
    · subst same
      rw [find?_cons_self] at found
      cases found
      exact List.mem_cons_self
    · rw [find?_cons_of_ne same] at found
      exact List.mem_cons_of_mem _ (ih found)

theorem find?_append (es more : List (Value × Value)) :
    find? (es ++ more) name = (find? es name).or (find? more name) :=
  List.findSome?_append

theorem find?_putEntry_self (es : List (Value × Value)) (v : Value) :
    find? (putEntry es (.text name) v) name = some v := by
  have known {k : Value} : (k.key? == (text name).key?) = true ↔ k = .text name := by
    rw [beq_iff_eq]
    exact key?_eq_text
  unfold putEntry
  by_cases there : (es.any fun e => e.1.key? == (text name).key?) = true
  · rw [if_pos there]
    induction es with
    | nil => cases there
    | cons e rest ih =>
      obtain ⟨k, w⟩ := e
      by_cases same : k = .text name
      · subst same
        rw [List.map_cons, if_pos (known.mpr rfl), find?_cons_self]
      · rw [List.map_cons, if_neg (mt known.mp same), find?_cons_of_ne same]
        refine ih ?_
        rw [List.any_cons, Bool.or_eq_true] at there
        exact there.resolve_left (mt known.mp same)
  · have none : find? es name = none := find?_eq_none.mpr fun e he same =>
      there (List.any_eq_true.mpr ⟨e, he, known.mpr same⟩)
    rw [if_neg there, find?_append, none, find?_cons_self]
    rfl

theorem find?_putEntry_of_ne (other : k ≠ .text name) (es : List (Value × Value)) (v : Value) :
    find? (putEntry es k v) name = find? es name := by
  have kept : find? (es.map fun e => if e.1.key? == k.key? then (e.1, v) else e) name = find? es name := by
    induction es with
    | nil => rfl
    | cons e rest ih =>
      obtain ⟨l, w⟩ := e
      rw [List.map_cons]
      by_cases same : l = .text name
      · subst same
        have apart : ¬((text name).key? == k.key?) = true := fun equal =>
          other (key?_eq_text.mp (beq_iff_eq.mp equal).symm)
        rw [if_neg apart, find?_cons_self, find?_cons_self]
      · rw [find?_cons_of_ne same, ← ih]
        split <;> exact find?_cons_of_ne same ..
  unfold putEntry
  split
  · exact kept
  · rw [find?_append, find?_cons_of_ne other]
    exact Option.or_none

end LintLedger.Value

namespace LintLedger.Yaml

open Outcome Value

variable {es base more : List (Value × Value)} {v : Value} {name : String}

/-! ### Entries laid over others -/

theorem isDistinct_overlay (h : IsDistinct base) : IsDistinct (overlay base more) := by
  induction more generalizing base with
  | nil => exact h
  | cons e rest ih => exact ih (h.putEntry e.1 e.2)

/-- **What is found in entries laid over others** is what the upper ones say, or else what the lower ones do. -/
theorem find?_overlay (distinct : IsDistinct more) :
    find? (overlay base more) name = (find? more name).or (find? base name) := by
  induction more generalizing base with
  | nil => rfl
  | cons e rest ih =>
    obtain ⟨k, v⟩ := e
    obtain ⟨fresh, distinct⟩ := List.nodup_cons.mp distinct
    have rest := @ih (putEntry base k v) distinct
    change find? (overlay (putEntry base k v) _) name = _
    by_cases same : k = .text name
    · subst same
      have none : find? _ name = none := find?_eq_none.mpr fun d hd same =>
        fresh (List.mem_map.mpr ⟨d, hd, congrArg key? same⟩)
      rw [rest, none, find?_putEntry_self, find?_cons_self]
      rfl
    · rw [rest, find?_putEntry_of_ne same, find?_cons_of_ne same]

/-- what entries laid over others hold was held by the ones or the others -/
theorem exists_of_mem_overlay {e : Value × Value} (h : e ∈ overlay base more) :
    (∃ d ∈ more, d.2 = e.2) ∨ ∃ d ∈ base, d.2 = e.2 := by
  induction more generalizing base with
  | nil => exact .inr ⟨e, h, rfl⟩
  | cons d rest ih =>
    rcases @ih (putEntry base d.1 d.2) h with ⟨c, hc, same⟩ | ⟨c, hc, same⟩
    · exact .inl ⟨c, List.mem_cons_of_mem _ hc, same⟩
    · rcases eq_or_mem_of_mem_putEntry hc with put | old
      · exact .inl ⟨d, List.mem_cons_self, put.symm.trans same⟩
      · exact .inr ⟨c, old, same⟩

/-! ### What a text writes -/

/-- whether a value is written by some node -/
def IsWritten (v : Value) : Prop := ∃ n, valueOf n = .ok v

/-- whether entries hold values that are written -/
def AreWritten (es : List (Value × Value)) : Prop := ∀ e ∈ es, IsWritten e.2

theorem AreWritten.append (h : AreWritten es) (h' : AreWritten more) : AreWritten (es ++ more) :=
  fun e mem => (List.mem_append.mp mem).elim (h e) (h' e)

theorem areWritten_entriesOf {entries : List (Node × Node)} (h : entriesOf entries = .ok es) : AreWritten es := by
  induction entries generalizing es with
  | nil =>
    rw [entriesOf] at h
    cases h
    exact nofun
  | cons entry rest ih =>
    obtain ⟨k, n⟩ := entry
    have under (key : Value) (h : (if key.key?.isNone then .error Error.malformed else do
        let value ← valueOf n
        let more ← entriesOf rest
        return (key, value) :: more) = .ok es) : AreWritten es := by
      split at h
      · cases h
      · obtain ⟨value, written, h⟩ := bind_eq_ok.mp h
        obtain ⟨behind, all, h⟩ := bind_eq_ok.mp h
        cases h
        exact List.forall_mem_cons.mpr ⟨⟨n, written⟩, ih all⟩
    rw [entriesOf] at h
    split at h
    · exact ih h
    · dsimp only at h
      split at h <;>
        · obtain ⟨key, -, h⟩ := bind_eq_ok.mp h
          exact under key h

mutual

theorem areWritten_mergedOf : ∀ {entries : List (Node × Node)} {es : List (Value × Value)},
    mergedOf entries = .ok es → AreWritten es
  | [], es, h => by
    rw [mergedOf] at h
    cases h
    exact nofun
  | (k, n) :: rest, es, h => by
    rw [mergedOf] at h
    split at h
    · obtain ⟨here, taken, h⟩ := bind_eq_ok.mp h
      obtain ⟨behind, merged, h⟩ := bind_eq_ok.mp h
      cases h
      exact (areWritten_takenFrom taken).append (areWritten_mergedOf merged)
    · obtain ⟨here, ⟨⟩, h⟩ := bind_eq_ok.mp h
      obtain ⟨behind, merged, h⟩ := bind_eq_ok.mp h
      cases h
      exact areWritten_mergedOf merged

theorem areWritten_takenFrom : ∀ {n : Node} {es : List (Value × Value)}, takenFrom n = .ok es → AreWritten es
  | .scalar _ _ _, es, h => by
    rw [takenFrom] at h
    cases h
  | .sequence _ items, es, h => by
    rw [takenFrom] at h
    exact areWritten_takenFromAll h
  | .mapping _ entries, es, h => by
    rw [takenFrom] at h
    obtain ⟨merged, taken, h⟩ := bind_eq_ok.mp h
    obtain ⟨own, written, h⟩ := bind_eq_ok.mp h
    cases h
    exact (areWritten_mergedOf taken).append (areWritten_entriesOf written)

theorem areWritten_takenFromAll : ∀ {items : List Node} {es : List (Value × Value)},
    takenFromAll items = .ok es → AreWritten es
  | [], es, h => by
    rw [takenFromAll] at h
    cases h
    exact nofun
  | .scalar _ _ _ :: _, es, h => by
    rw [takenFromAll] at h
    · cases h
    · exact nofun
  | .sequence _ _ :: _, es, h => by
    rw [takenFromAll] at h
    · cases h
    · exact nofun
  | .mapping _ entries :: rest, es, h => by
    rw [takenFromAll] at h
    obtain ⟨merged, taken, h⟩ := bind_eq_ok.mp h
    obtain ⟨own, written, h⟩ := bind_eq_ok.mp h
    obtain ⟨behind, all, h⟩ := bind_eq_ok.mp h
    cases h
    exact ((areWritten_takenFromAll all).append (areWritten_mergedOf taken)).append (areWritten_entriesOf written)

end

theorem readTime_ne_map (parts : TimeParts) : readTime parts ≠ .ok (.map es) := by
  intro h
  unfold readTime at h
  obtain ⟨date, -, h⟩ := bind_eq_ok.mp h
  split at h
  · cases h
  · obtain ⟨hour, -, h⟩ := bind_eq_ok.mp h
    obtain ⟨minute, -, h⟩ := bind_eq_ok.mp h
    obtain ⟨second, -, h⟩ := bind_eq_ok.mp h
    cases h

/-- a scalar writes no mapping -/
theorem scalarValue_ne_map (form : Form) (text : String) : scalarValue form text ≠ .ok (.map es) := by
  have faulty {x : Except Fault Value} (h : orFault x = .ok (.map es)) : x = .ok (.map es) := by
    cases x with
    | error f => cases h
    | ok v => exact congrArg _ (Except.ok.inj h)
  intro h
  unfold scalarValue at h
  split at h
  · cases h
  · cases h
  · dsimp only at h
    split at h
    · cases h
    · split at h <;> cases h
  · obtain ⟨i, -, same⟩ := map_eq_ok.mp (faulty h)
    cases same
  · obtain ⟨x, -, same⟩ := map_eq_ok.mp (faulty h)
    cases same
  · split at h
    · exact readTime_ne_map _ (faulty h)
    · cases h
  · cases h
  · cases h

theorem exists_of_valueOf {n : Node} (h : valueOf n = .ok (.map es)) :
    ∃ all, es = overlay [] all ∧ AreWritten all := by
  cases n with
  | scalar tag text isPlain =>
    rw [valueOf] at h
    obtain ⟨form, -, h⟩ := bind_eq_ok.mp h
    exact absurd h (scalarValue_ne_map form text)
  | sequence tag items =>
    rw [valueOf] at h
    split at h
    · obtain ⟨vs, -, h⟩ := map_eq_ok.mp h
      cases h
    · cases h
  | mapping tag entries =>
    rw [valueOf] at h
    split at h
    · obtain ⟨merged, taken, h⟩ := bind_eq_ok.mp h
      obtain ⟨own, written, h⟩ := bind_eq_ok.mp h
      cases h
      exact ⟨_, rfl, (areWritten_mergedOf taken).append (areWritten_entriesOf written)⟩
    · cases h

/-- **No mapping that is written holds a key twice.** -/
theorem IsWritten.isDistinct (h : IsWritten (.map es)) : IsDistinct es := by
  obtain ⟨n, h⟩ := h
  obtain ⟨all, rfl, -⟩ := exists_of_valueOf h
  exact isDistinct_overlay List.nodup_nil

/-- what a mapping that is written holds is written, too -/
theorem IsWritten.of_mem (h : IsWritten (.map es)) {e : Value × Value} (mem : e ∈ es) : IsWritten e.2 := by
  obtain ⟨n, h⟩ := h
  obtain ⟨all, rfl, written⟩ := exists_of_valueOf h
  rcases exists_of_mem_overlay mem with ⟨d, hd, same⟩ | ⟨d, hd, -⟩
  · exact same ▸ written d hd
  · cases hd

theorem isWritten_of_read {text : String} (h : read text = .ok (.map es)) : IsWritten (.map es) := by
  unfold read at h
  split at h
  · cases h
  · cases h
  · exact ⟨_, h⟩

end LintLedger.Yaml
