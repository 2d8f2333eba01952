import LintLedger.Text.Split
import LintLedger.Yaml.Token

/-!
# Nodes of a YAML text

The structure that the tokens of one document spell: scalars, sequences and mappings, each with the
tag that was written in front of it, if one was.  An alias stands for the node that its anchor names.
-/

namespace LintLedger.Yaml

/-- a part of a document -/
inductive Node where
  | scalar (tag : Option String) (text : String) (isPlain : Bool)
  | sequence (tag : Option String) (items : List Node)
  | mapping (tag : Option String) (entries : List (Node × Node))
deriving Inhabited

namespace Node

/-- the node of a place at which nothing is written -/
def empty : Node := .scalar none "" true

/-- what is known while the nodes of a document are read -/
structure Scope where
  handles : List (String × String)
  anchors : List (String × Node)

/-- what is known at the start of a document in which handles are defined; those of the language
come last, so that they can be defined anew -/
def Scope.withHandles (handles : List (String × String)) : Scope :=
  ⟨handles ++ [("!", "!"), ("!!", "tag:yaml.org,2002:")], []⟩

/-- the full text of a tag -/
def Scope.tag? (scope : Scope) : Option String → String → Option String
  | none, rest => some rest
  | some handle, rest => (scope.handles.lookup handle).map (· ++ rest)

/-- with a node under an anchor, which may not be there already -/
def Scope.bind? (scope : Scope) (anchor : Option String) (node : Node) : Option Scope :=
  match anchor with
  | none => some scope
  | some name =>
    if (scope.anchors.lookup name).isSome then none
    else some { scope with anchors := (name, node) :: scope.anchors }

/-- what stands in front of a node -/
structure Properties where
  anchor : Option String
  tag : Option String

/-- the anchor in front, if there is one -/
def anchorThen : List Token → Option String × List Token
  | .anchor name :: rest => (some name, rest)
  | ts => (none, ts)

/-- the tag in front, if there is one; it has to be known -/
def tagThen (scope : Scope) : List Token → Option (Option String × List Token)
  | .tag handle rest :: ts => (scope.tag? handle rest).map fun t => (some t, ts)
  | ts => some (none, ts)

/-- anchor and tag in front of a node, in either order -/
def properties (scope : Scope) (ts : List Token) : Option (Properties × List Token) :=
  match anchorThen ts with
  | (some name, ts) => (tagThen scope ts).map fun p => (⟨some name, p.1⟩, p.2)
  | (none, ts) =>
    (tagThen scope ts).map fun p =>
      match p with
      | (some tag, ts) => let (anchor, ts) := anchorThen ts; (⟨anchor, some tag⟩, ts)
      | (none, ts) => (⟨none, none⟩, ts)

/-- where a node stands: in a flow, in a block, or behind the key of a block, where the entries of a
sequence need not be indented -/
inductive Place where
  | flow | block | value
deriving DecidableEq

/-- a token that ends the entry of a block mapping -/
def endsEntry : List Token → Bool
  | .key :: _ | .value :: _ | .blockEnd :: _ => true
  | _ => false

/-- a token that ends the entry of a block sequence -/
def endsItem : List Token → Bool
  | .blockEntry :: _ | .blockEnd :: _ => true
  | _ => false

/-- a token that ends the entry of a sequence that is not indented -/
def endsLooseItem (ts : List Token) : Bool := endsItem ts || endsEntry ts

/-- a token that ends the key of a flow entry, `close` being the end of the flow -/
def endsFlowKey (close : Token) : List Token → Bool
  | t :: _ => t = .value || t = .flowEntry || t = close
  | [] => false

/-- a token that ends the value of a flow entry, `close` being the end of the flow -/
def endsFlowValue (close : Token) : List Token → Bool
  | t :: _ => t = .flowEntry || t = close
  | [] => false

mutual

/-- a node at a place -/
def node : Nat → Place → Scope → List Token → Option (Node × List Token × Scope)
  | 0, _, _, _ => none
  | fuel + 1, place, scope, ts =>
    match ts with
    | .alias name :: rest => (scope.anchors.lookup name).map fun n => (n, rest, scope)
    | _ => do
      let (props, ts) ← properties scope ts
      let (n, ts, scope) ← content fuel place props scope ts
      let scope ← scope.bind? props.anchor n
      return (n, ts, scope)

/-- a node whose anchor and tag have been read -/
def content : Nat → Place → Properties → Scope → List Token → Option (Node × List Token × Scope)
  | 0, _, _, _, _ => none
  | fuel + 1, place, props, scope, ts =>
    match ts with
    | .scalar text isPlain :: rest => some (.scalar props.tag text isPlain, rest, scope)
    | .flowSequenceStart :: rest => do
      let (items, ts, scope) ← flowItems fuel true scope rest
      return (.sequence props.tag items, ts, scope)
    | .flowMappingStart :: rest => do
      let (entries, ts, scope) ← flowEntries fuel true scope rest
      return (.mapping props.tag entries, ts, scope)
    | .blockEntry :: _ =>
      if place = .value then do
        let (items, ts, scope) ← looseItems fuel scope ts
        return (.sequence props.tag items, ts, scope)
      else bare props scope ts
    | .blockSequenceStart :: rest =>
      if place = .flow then bare props scope ts
      else do
        let (items, ts, scope) ← blockItems fuel scope rest
        return (.sequence props.tag items, ts, scope)
    | .blockMappingStart :: rest =>
      if place = .flow then bare props scope ts
      else do
        let (entries, ts, scope) ← blockEntries fuel scope rest
        return (.mapping props.tag entries, ts, scope)
    | _ => bare props scope ts

/-- the node that an anchor or a tag alone stands in front of -/
def bare (props : Properties) (scope : Scope) (ts : List Token) :
    Option (Node × List Token × Scope) :=
  if props.anchor.isSome || props.tag.isSome then some (.scalar props.tag "" true, ts, scope)
  else none

/-- a node, or an empty one where something else follows -/
def nodeUnless : Nat → Bool → Place → Scope → List Token → Option (Node × List Token × Scope)
  | 0, _, _, _, _ => none
  | fuel + 1, absent, place, scope, ts =>
    if absent then some (empty, ts, scope) else node fuel place scope ts

/-- the entries of a block sequence -/
def blockItems : Nat → Scope → List Token → Option (List Node × List Token × Scope)
  | 0, _, _ => none
  | fuel + 1, scope, ts =>
    match ts with
    | .blockEntry :: ts => do
      let (item, ts, scope) ← nodeUnless fuel (endsItem ts) .block scope ts
      let (items, ts, scope) ← blockItems fuel scope ts
      return (item :: items, ts, scope)
    | .blockEnd :: ts => some ([], ts, scope)
    | _ => none

/-- the entries of a sequence that is not indented -/
def looseItems : Nat → Scope → List Token → Option (List Node × List Token × Scope)
  | 0, _, _ => none
  | fuel + 1, scope, ts =>
    match ts with
    | .blockEntry :: ts => do
      let (item, ts, scope) ← nodeUnless fuel (endsLooseItem ts) .block scope ts
      let (items, ts, scope) ← looseItems fuel scope ts
      return (item :: items, ts, scope)
    | _ => some ([], ts, scope)

/-- the entries of a block mapping -/
def blockEntries : Nat → Scope → List Token → Option (List (Node × Node) × List Token × Scope)
  | 0, _, _ => none
  | fuel + 1, scope, ts =>
    match ts with
    | .key :: ts => do
      let (k, ts, scope) ← nodeUnless fuel (endsEntry ts) .value scope ts
      let (v, ts, scope) ← blockValue fuel scope ts
      let (entries, ts, scope) ← blockEntries fuel scope ts
      return ((k, v) :: entries, ts, scope)
    | .blockEnd :: ts => some ([], ts, scope)
    | _ => none

/-- the value of an entry of a block mapping -/
def blockValue : Nat → Scope → List Token → Option (Node × List Token × Scope)
  | 0, _, _ => none
  | fuel + 1, scope, ts =>
    match ts with
    | .value :: ts => nodeUnless fuel (endsEntry ts) .value scope ts
    | _ => some (empty, ts, scope)

/-- the entries of a flow sequence -/
def flowItems : Nat → Bool → Scope → List Token → Option (List Node × List Token × Scope)
  | 0, _, _, _ => none
  | fuel + 1, first, scope, ts =>
    match ts with
    | .flowSequenceEnd :: ts => some ([], ts, scope)
    | _ =>
      match separated first ts with
      | none => none
      | some (.flowSequenceEnd :: ts) => some ([], ts, scope)
      | some (.key :: ts) => do
        let (k, ts, scope) ← nodeUnless fuel (endsFlowKey .flowSequenceEnd ts) .flow scope ts
        let (v, ts, scope) ← flowValue fuel .flowSequenceEnd scope ts
        let (items, ts, scope) ← flowItems fuel false scope ts
        return (.mapping none [(k, v)] :: items, ts, scope)
      | some ts => do
        let (item, ts, scope) ← node fuel .flow scope ts
        let (items, ts, scope) ← flowItems fuel false scope ts
        return (item :: items, ts, scope)

/-- the entries of a flow mapping -/
def flowEntries : Nat → Bool → Scope → List Token →
    Option (List (Node × Node) × List Token × Scope)
  | 0, _, _, _ => none
  | fuel + 1, first, scope, ts =>
    match ts with
    | .flowMappingEnd :: ts => some ([], ts, scope)
    | _ =>
      match separated first ts with
      | none => none
      | some (.flowMappingEnd :: ts) => some ([], ts, scope)
      | some (.key :: ts) => do
        let (k, ts, scope) ← nodeUnless fuel (endsFlowKey .flowMappingEnd ts) .flow scope ts
        let (v, ts, scope) ← flowValue fuel .flowMappingEnd scope ts
        let (entries, ts, scope) ← flowEntries fuel false scope ts
        return ((k, v) :: entries, ts, scope)
      | some ts => do
        let (k, ts, scope) ← node fuel .flow scope ts
        let (entries, ts, scope) ← flowEntries fuel false scope ts
        return ((k, empty) :: entries, ts, scope)

/-- the value of an entry of a flow -/
def flowValue : Nat → Token → Scope → List Token → Option (Node × List Token × Scope)
  | 0, _, _, _ => none
  | fuel + 1, close, scope, ts =>
    match ts with
    | .value :: ts => nodeUnless fuel (endsFlowValue close ts) .flow scope ts
    | _ => some (empty, ts, scope)

/-- the tokens behind the comma in front of an entry that is not the first -/
def separated (first : Bool) (ts : List Token) : Option (List Token) :=
  if first then some ts
  else
    match ts with
    | .flowEntry :: ts => some ts
    | _ => none

end

/-- whether a version is the first of the language, whatever follows its point -/
def isVersionOne (version : String) : Bool :=
  match Text.pieces '.' version.toList with
  | [major, minor] =>
    major.all Char.isDigit && Text.digitsValue major = 1 && !minor.isEmpty && minor.all Char.isDigit
  | _ => false

/-- whether a handle is one or two exclamation marks, with a name at most between two -/
def isHandle (handle : String) : Bool :=
  match handle.toList with
  | ['!'] => true
  | '!' :: rest => rest.getLast? = some '!' && rest.dropLast.all Lexer.isNameChar
  | _ => false

/-- what the directives in front of a document say, and what follows them; `handles` are those that
have been defined -/
def directives (versioned : Bool) (handles : List (String × String)) :
    List Token → Option (List (String × String) × List Token)
  | .directive name words :: ts =>
    match name, words with
    | "YAML", [version] =>
      if versioned || !isVersionOne version then none else directives true handles ts
    | "YAML", _ => none
    | "TAG", [handle, text] =>
      if !isHandle handle || (handles.lookup handle).isSome then none
      else directives versioned (handles ++ [(handle, text)]) ts
    | "TAG", _ => none
    | _, _ => directives versioned handles ts
  | ts => some (handles, ts)

/-- the tokens behind the ends of documents -/
def skipEnds (ts : List Token) : List Token := ts.dropWhile fun t => t = .documentEnd

/-- whether a document that has begun is empty -/
def isEmptyDocument : List Token → Bool
  | [] | .directive _ _ :: _ | .documentStart :: _ | .documentEnd :: _ => true
  | _ => false

/-- the node of a document, which has to be the only one; only where the document was begun by a
mark, as `begun` says, may it be empty -/
def onlyDocument (begun : Bool) (scope : Scope) (ts : List Token) : Option Node := do
  let (n, ts, _) ←
    if begun && isEmptyDocument ts then some (empty, ts, scope)
    else node (4 * ts.length + 4) .block scope ts
  if (skipEnds ts).isEmpty then some n else none

/-- the node of the only document, none if there is no document -/
def ofTokens? (ts : List Token) : Option (Option Node) :=
  match ts with
  | [] => some none
  | .directive _ _ :: _ | .documentStart :: _ => do
    let (handles, ts) ← directives false [] ts
    match ts with
    | .documentStart :: ts => (onlyDocument true (Scope.withHandles handles) ts).map some
    | _ => none
  | _ => (onlyDocument false (Scope.withHandles []) ts).map some

end Node

end LintLedger.Yaml
