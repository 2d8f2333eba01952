/-!
# Comparisons made while a row is put in order

Some items have no common order.  Which pair is met first depends on how the row is put in order:
the run at its front is taken as it is (turned around if it falls), and each further item finds its
place by halving what is in order already.  `firstFailure?` is the first comparison that fails on
that way.
-/

namespace LintLedger.Order

/-- the number of items at the front that follow each other, as `goesOn` tells of the later and the
earlier of two neighbours -/
def runLength {α ε : Type} (goesOn : α → α → Except ε Bool) : α → List α → Except ε Nat
  | _, [] => .ok 0
  | last, next :: rest =>
    match goesOn next last with
    | .error e => .error e
    | .ok false => .ok 0
    | .ok true => (runLength goesOn next rest).map (· + 1)

/-- the place of an item in a row between `low` and `high`, behind all that it does not precede -/
def placeOf {α ε : Type} (precedes : α → α → Except ε Bool) (row : Array α) (item : α) :
    Nat → Nat → Nat → Except ε Nat
  | 0, low, _ => .ok low
  | fuel + 1, low, high =>
    if low < high then
      let middle := low + (high - low) / 2
      match row[middle]? with
      | none => .ok low
      | some other =>
        match precedes item other with
        | .error e => .error e
        | .ok true => placeOf precedes row item fuel low middle
        | .ok false => placeOf precedes row item fuel (middle + 1) high
    else .ok low

/-- a row with an item put in at a place -/
def insertAt {α : Type} (row : Array α) (place : Nat) (item : α) : Array α :=
  (row.toList.take place ++ item :: row.toList.drop place).toArray

/-- the first comparison that fails while further items find their places in a row -/
def insertionFailure? {α ε : Type} (precedes : α → α → Except ε Bool) :
    Array α → List α → Option ε
  | _, [] => none
  | row, item :: rest =>
    match placeOf precedes row item (row.size + 1) 0 row.size with
    | .error e => some e
    | .ok place => insertionFailure? precedes (insertAt row place item) rest

/-- the first comparison that fails while a row is put in order -/
def firstFailure? {α ε : Type} (precedes : α → α → Except ε Bool) : List α → Option ε
  | a :: b :: rest =>
    match precedes b a with
    | .error e => some e
    | .ok falls =>
      let goesOn : α → α → Except ε Bool := fun next last => (precedes next last).map (· == falls)
      match runLength goesOn b rest with
      | .error e => some e
      | .ok more =>
        let front := (a :: b :: rest).take (more + 2)
        let row := if falls then front.reverse else front
        insertionFailure? precedes row.toArray (rest.drop more)
  | _ => none

end LintLedger.Order
