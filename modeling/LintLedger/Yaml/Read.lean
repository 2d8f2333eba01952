import LintLedger.Value.Compare
import LintLedger.Yaml.Node
import LintLedger.Yaml.Resolve

/-!
# Reading YAML

The value that a YAML text writes: one document, of whose repeated keys the last counts, and in
which `<<` takes over the entries of other mappings in front of the mapping's own.
-/

namespace LintLedger.Yaml

/-- why a text is not read -/
inductive Error where
  | malformed
  | fault (f : Fault)
deriving Repr, DecidableEq

/-- the text in front of the tags of the language itself -/
def standardTag : String := "tag:yaml.org,2002:"

/-- the form that a tag asks for; none if the tag is not known -/
def taggedForm? (tag : String) : Option Form :=
  if tag = standardTag ++ "bool" then some .bool
  else if tag = standardTag ++ "float" then some .float
  else if tag = standardTag ++ "int" then some .int
  else if tag = standardTag ++ "null" then some .null
  else if tag = standardTag ++ "timestamp" then some .time
  else if tag = standardTag ++ "str" then some .text
  else none

/-- the form of a scalar -/
def scalarForm (tag : Option String) (text : String) (isPlain : Bool) : Except Error Form :=
  match tag with
  | none => .ok (if isPlain then formOf text else .text)
  | some "!" => .ok (formOf text)
  | some tag => match taggedForm? tag with
    | some form => .ok form
    | none => .error .malformed

/-- a fault as a reason not to read a text -/
def orFault {α : Type} : Except Fault α → Except Error α
  | .ok a => .ok a
  | .error f => .error (.fault f)

/-- the value of a scalar of a form -/
def scalarValue (form : Form) (text : String) : Except Error Value :=
  match form with
  | .text => .ok (.text text)
  | .null => .ok .null
  | .bool =>
    let word := String.ofList (text.toList.map Char.toLower)
    if ["yes", "true", "on"].contains word then .ok (.bool true)
    else if ["no", "false", "off"].contains word then .ok (.bool false)
    else .error .malformed
  | .int => orFault ((readInt text).map .int)
  | .float => orFault ((readFloat text).map .float)
  | .time => match timeForm text.toList with
    | some parts => orFault (readTime parts)
    | none => .error .malformed
  | .merge | .equals => .error .malformed

/-- whether a node is a plain scalar of a form -/
def isPlainForm (form : Form) : Node → Bool
  | .scalar none text true => formOf text = form
  | _ => false

/-- whether a tag, if there is one, is the standard tag of a name -/
def hasTag (name : String) (tag : Option String) : Bool :=
  match tag with
  | none => true
  | some t => t = "!" || t = standardTag ++ name

/-- entries with more entries written over them -/
def overlay (base more : List (Value × Value)) : List (Value × Value) :=
  more.foldl (fun acc e => Value.putEntry acc e.1 e.2) base

mutual

/-- the value of a node -/
def valueOf : Node → Except Error Value
  | .scalar tag text isPlain => do
    let form ← scalarForm tag text isPlain
    scalarValue form text
  | .sequence tag items =>
    if hasTag "seq" tag then (itemsOf items).map .list else .error .malformed
  | .mapping tag entries =>
    if hasTag "map" tag then do
      let merged ← mergedOf entries
      let own ← entriesOf entries
      return .map (overlay [] (merged ++ own))
    else .error .malformed

/-- the values of nodes -/
def itemsOf : List Node → Except Error (List Value)
  | [] => .ok []
  | n :: rest => do
    let v ← valueOf n
    let vs ← itemsOf rest
    return v :: vs

/-- the entries of a mapping itself -/
def entriesOf : List (Node × Node) → Except Error (List (Value × Value))
  | [] => .ok []
  | (k, v) :: rest => do
    if isPlainForm .merge k then entriesOf rest
    else
      let key ← if isPlainForm .equals k then .ok (.text "=") else valueOf k
      if key.key?.isNone then .error .malformed
      else
        let value ← valueOf v
        let more ← entriesOf rest
        return (key, value) :: more

/-- the entries that a mapping takes over from others -/
def mergedOf : List (Node × Node) → Except Error (List (Value × Value))
  | [] => .ok []
  | (k, v) :: rest => do
    let here ← if isPlainForm .merge k then takenFrom v else .ok []
    let more ← mergedOf rest
    return here ++ more

/-- the entries of a mapping, or of the mappings of a sequence, of which the first counts most -/
def takenFrom : Node → Except Error (List (Value × Value))
  | .mapping _ entries => do
    let merged ← mergedOf entries
    let own ← entriesOf entries
    return merged ++ own
  | .sequence _ items => takenFromAll items
  | .scalar _ _ _ => .error .malformed

/-- the entries of mappings, those of the first behind all others -/
def takenFromAll : List Node → Except Error (List (Value × Value))
  | [] => .ok []
  | .mapping _ entries :: rest => do
    let merged ← mergedOf entries
    let own ← entriesOf entries
    let more ← takenFromAll rest
    return more ++ merged ++ own
  | _ :: _ => .error .malformed

end

/-- the value that a text writes; nothing written is no value -/
def read (s : String) : Except Error Value :=
  match (tokens? s.toList).bind Node.ofTokens? with
  | none => .error .malformed
  | some none => .ok .null
  | some (some n) => valueOf n

end LintLedger.Yaml
