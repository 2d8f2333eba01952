import LintLedger.Value.Fault

/-!
# Keys and order

Values as keys and in order.  A key is the canonical form of a value: numbers are taken by their
exact value, so that one, one point zero and yes are the same key; lists and maps are no keys.
Only numbers with numbers, texts with texts, and lists with lists have an order.
-/

namespace LintLedger

/-- the canonical form of a value that can be a key -/
inductive Key where
  | null
  | number (q : Rat)
  | infinite (negative : Bool)
  | undefined
  | text (s : String)
  | date (d : CivilDate)
  | time (t : CivilTime)
deriving DecidableEq, Inhabited

namespace Value

/-- the canonical form of a double -/
def floatKey (x : Float) : Key :=
  match Decimal.rational? x, Decimal.reading x with
  | some q, _ => .number q
  | none, .infinite negative => .infinite negative
  | none, _ => .undefined

/-- the canonical form of a value, if it can be a key -/
def key : Value → Except Fault Key
  | null => .ok .null
  | bool b => .ok (.number (if b then 1 else 0))
  | int i => .ok (.number (i : Rat))
  | float x => .ok (floatKey x)
  | text s => .ok (.text s)
  | date d => .ok (.date d)
  | time t => .ok (.time t)
  | list _ => .error (.unhashable .list)
  | map _ => .error (.unhashable .map)

/-- the canonical form of a value that is not a list or a map -/
def key? (v : Value) : Option Key := v.key.toOption

/-- the entries of a map with one more; a key that is there keeps its place -/
def putEntry (entries : List (Value × Value)) (k v : Value) : List (Value × Value) :=
  if entries.any fun e => e.1.key? == k.key? then
    entries.map fun e => if e.1.key? == k.key? then (e.1, v) else e
  else entries ++ [(k, v)]

mutual

/-- equality of values; maps are equal whatever the order of their entries -/
def same : Value → Value → Bool
  | list xs, list ys => sameAll xs ys
  | map es, map fs => es.length == fs.length && sameEntries es fs
  | list _, _ => false
  | map _, _ => false
  | float x, float y => x == y
  | v, w => v.key? == w.key? && v.key?.isSome

/-- equality of two rows of values -/
def sameAll : List Value → List Value → Bool
  | [], [] => true
  | x :: xs, y :: ys => same x y && sameAll xs ys
  | _, _ => false

/-- whether all entries of the first map are in the second -/
def sameEntries : List (Value × Value) → List (Value × Value) → Bool
  | [], _ => true
  | (k, v) :: es, fs =>
    (match fs.find? fun f => f.1.key? == k.key? with
      | some f => same v f.2
      | none => false) && sameEntries es fs

end

/-- the order of two numbers; an infinity lies beyond all others, and what is no number has none -/
def numberBefore (a b : Value) : Bool :=
  match a.key?, b.key? with
  | some (.number p), some (.number q) => p < q
  | some (.infinite n), some (.infinite m) => n && !m
  | some (.infinite n), some (.number _) => n
  | some (.number _), some (.infinite m) => !m
  | _, _ => false

/-- a value that counts as a number -/
def isNumber : Value → Bool
  | bool _ | int _ | float _ => true
  | _ => false

mutual

/-- whether a value stands before another -/
def before : Value → Value → Except Fault Bool
  | text a, text b => .ok (a < b)
  | list xs, list ys => listBefore xs ys
  | a, b =>
    if a.isNumber && b.isNumber then .ok (numberBefore a b)
    else .error (.incomparable a.kind b.kind)

/-- whether a row of values stands before another: the first difference decides, then the length -/
def listBefore : List Value → List Value → Except Fault Bool
  | [], [] => .ok false
  | [], _ :: _ => .ok true
  | _ :: _, [] => .ok false
  | x :: xs, y :: ys => if same x y then listBefore xs ys else before x y

end

end Value

end LintLedger
