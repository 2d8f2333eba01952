import LintLedger.Proofs.Outcome
import LintLedger.Proofs.Text.Lines
import Mathlib

/-!
# Output that is written line by line

Tools write one thing on a line, among lines that tell nothing (`written`).  A reader that goes from line to
line and finds nothing on the other ones gives what it gives for the lines that tell something, one after the
other (`gathered_written`).
-/

namespace LintLedger.Output

open Outcome

variable {α β δ ε : Type}

/-- a line of output: one that tells something, or any other -/
inductive OutputLine (α : Type) where
  | telling (a : α)
  | other (line : String)

namespace OutputLine

/-- a line as it is written -/
def text (write : α → String) : OutputLine α → String
  | telling a => write a
  | other line => line

/-- what a line tells -/
def told? : OutputLine α → Option α
  | telling a => some a
  | other _ => none

/-- the line itself, if it tells nothing -/
def other? : OutputLine α → Option String
  | telling _ => none
  | other line => some line

end OutputLine

/-- lines as they are written, one below the other -/
def written (write : α → String) (ls : List (OutputLine α)) : String :=
  String.intercalate "\n" (ls.map (OutputLine.text write))

/-- what lines tell -/
def told (ls : List (OutputLine α)) : List α := ls.filterMap OutputLine.told?

/-- the lines that tell nothing -/
def others (ls : List (OutputLine α)) : List String := ls.filterMap OutputLine.other?

theorem toList_written (write : α → String) (ls : List (OutputLine α)) :
    (written write ls).toList = List.intercalate ['\n'] (ls.map fun l => (l.text write).toList) := by
  unfold written
  rw [String.toList_intercalate, List.map_map]
  rfl

/-! ### Gathering -/

/-- what each item gives, one behind the other -/
def gathered (give : α → Except ε (List β)) (items : List α) : Except ε (List β) :=
  (items.mapM give).map List.flatten

theorem gathered_cons (give : α → Except ε (List β)) (a : α) (rest : List α) :
    gathered give (a :: rest) = give a >>= fun bs => (gathered give rest).map (bs ++ ·) := by
  unfold gathered
  rw [List.mapM_cons]
  cases give a with
  | error e => rfl
  | ok bs =>
    cases rest.mapM give with
    | error e => rfl
    | ok more => rfl

theorem gathered_cons_of_nothing {give : α → Except ε (List β)} {a : α} (nothing : give a = .ok []) (rest : List α) :
    gathered give (a :: rest) = gathered give rest := by
  rw [gathered_cons, nothing, ok_bind]
  cases gathered give rest <;> rfl

theorem gathered_concat_of_nothing {give : α → Except ε (List β)} {a : α} (nothing : give a = .ok []) (items : List α) :
    gathered give (items ++ [a]) = gathered give items := by
  induction items with
  | nil => exact gathered_cons_of_nothing nothing []
  | cons b rest ih => rw [List.cons_append, gathered_cons, gathered_cons, ih]

/-- what is given for what is read off an item: nothing, if nothing is read -/
def onRead (read : α → Option δ) (give : δ → Except ε (List β)) (a : α) : Except ε (List β) :=
  match read a with
  | some d => give d
  | none => .ok []

theorem onRead_of_some {read : α → Option δ} {a : α} {d : δ} (h : read a = some d) (give : δ → Except ε (List β)) :
    onRead read give a = give d := by
  rw [onRead, h]

theorem onRead_of_none {read : α → Option δ} {a : α} (h : read a = none) (give : δ → Except ε (List β)) :
    onRead read give a = .ok [] := by
  rw [onRead, h]

/-- gathering from what is read off some items -/
theorem gathered_filterMap (give : δ → Except ε (List β)) (read : α → Option δ) (items : List α) :
    gathered give (items.filterMap read) = gathered (onRead read give) items := by
  induction items with
  | nil => rfl
  | cons a rest ih =>
    cases found : read a with
    | none => rw [List.filterMap_cons_none found, ih, gathered_cons_of_nothing (onRead_of_none found give)]
    | some d => rw [List.filterMap_cons_some found, gathered_cons, gathered_cons, ih, onRead_of_some found]

/-- single things are gathered as they are given -/
theorem gathered_singleton (give : α → Except ε β) (items : List α) :
    gathered (fun a => (give a).map ([·])) items = items.mapM give := by
  induction items with
  | nil => rfl
  | cons a rest ih =>
    rw [gathered_cons, ih, List.mapM_cons]
    cases give a with
    | error e => rfl
    | ok b =>
      cases rest.mapM give with
      | error e => rfl
      | ok more => rfl

/-- a reader that goes from line to line, and finds nothing on an empty line and on those that tell nothing,
gathers what it finds on the others -/
theorem gathered_written {write : α → String} {ls : List (OutputLine α)} {give : List Char → Except ε (List β)}
    {own : α → Except ε (List β)} (empty : give [] = .ok [])
    (tells : ∀ a ∈ told ls, (∀ c ∈ (write a).toList, Text.isLineEnd c = false) ∧ give (write a).toList = own a)
    (plain : ∀ line ∈ others ls, (∀ c ∈ line.toList, Text.isLineEnd c = false) ∧ give line.toList = .ok []) :
    gathered give (Text.lines (written write ls).toList) = gathered own (told ls) := by
  have oneLine : ∀ line ∈ ls.map fun l => (l.text write).toList, ∀ c ∈ line, Text.isLineEnd c = false := by
    intro line hline
    obtain ⟨l, hl, rfl⟩ := List.mem_map.mp hline
    cases l with
    | telling a => exact (tells a (List.mem_filterMap.mpr ⟨_, hl, rfl⟩)).1
    | other line => exact (plain line (List.mem_filterMap.mpr ⟨_, hl, rfl⟩)).1
  have whole : gathered give (Text.lines (written write ls).toList) =
      gathered give (ls.map fun l => (l.text write).toList) := by
    rw [toList_written]
    rcases Text.lines_intercalate oneLine with same | same
    · rw [same]
    · conv_rhs => rw [same]
      rw [gathered_concat_of_nothing empty]
  rw [whole]
  clear whole oneLine
  induction ls with
  | nil => rfl
  | cons l ls ih =>
    rw [List.map_cons]
    cases l with
    | telling a =>
      have later := ih (fun b hb => tells b (List.mem_cons_of_mem a hb)) plain
      show gathered give ((write a).toList :: _) = gathered own (a :: told ls)
      rw [gathered_cons, gathered_cons, (tells a List.mem_cons_self).2, later]
    | other line =>
      have later := ih tells fun other h => plain other (List.mem_cons_of_mem line h)
      show gathered give (line.toList :: _) = gathered own (told ls)
      rw [gathered_cons_of_nothing (plain line List.mem_cons_self).2, later]

end LintLedger.Output
