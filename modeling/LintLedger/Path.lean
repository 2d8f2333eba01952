import LintLedger.Text.Split

/-!
# Paths

Paths by their spelling alone.  A path is read without its empty parts and its dots; two dots are
kept, since only `resolve` knows that they cancel the part before them.  Exactly two slashes in
front are kept apart from one, until the path is resolved.
-/

namespace LintLedger

/-- where a path starts -/
inductive Anchor where
  /-- at the directory that it is joined to -/
  | relative
  /-- at the root of the file system -/
  | root
  /-- behind exactly two slashes -/
  | doubled
deriving Repr, DecidableEq, Inhabited

/-- the slashes of an anchor -/
def Anchor.slashes : Anchor → String
  | .relative => ""
  | .root => "/"
  | .doubled => "//"

/-- a path as it is spelt -/
structure Path where
  anchor : Anchor
  parts : List String
deriving Repr, DecidableEq, Inhabited

namespace Path

/-- where a run of characters starts -/
def anchorOf : List Char → Anchor
  | '/' :: '/' :: '/' :: _ => .root
  | '/' :: '/' :: _ => .doubled
  | '/' :: _ => .root
  | _ => .relative

/-- a part that says where to go: neither empty nor a dot -/
def isPart (s : String) : Bool := s != "" && s != "."

/-- the path that a text spells -/
def ofText (s : String) : Path where
  anchor := anchorOf s.toList
  parts := ((Text.pieces '/' s.toList).map String.ofList).filter isPart

/-- the shortest text that spells a path -/
def text (p : Path) : String :=
  let t := p.anchor.slashes ++ String.intercalate "/" p.parts
  if t = "" then "." else t

/-- a path that starts at the root -/
def isAbsolute (p : Path) : Bool := p.anchor != .relative

/-- a path as seen from another; one that starts at the root stays as it is -/
def join (base p : Path) : Path :=
  if p.isAbsolute then p else { base with parts := base.parts ++ p.parts }

/-- a path with one more part -/
def child (p : Path) (name : String) : Path := { p with parts := p.parts ++ [name] }

/-- the parts in reverse that are left once two dots have cancelled the part before them -/
def cancel (done : List String) (part : String) : List String :=
  if part = ".." then done.tail else part :: done

/-- a path from the root without dots -/
def resolve (p : Path) : Path := ⟨.root, (p.parts.foldl cancel []).reverse⟩

/-- what is left of the parts of a path behind those of a directory -/
def below? : List String → List String → Option (List String)
  | [], parts => some parts
  | _ :: _, [] => none
  | d :: ds, part :: parts => if d = part then below? ds parts else none

/-- the text of a path from a directory, or the path as it was spelt if it lies elsewhere or holds
a character that no file name can hold -/
def textFrom (dir : Path) (s : String) : String :=
  let p := ofText s
  if s.toList.contains '\x00' then p.text
  else
    match below? dir.parts (dir.join p).resolve.parts with
    | some parts => text ⟨.relative, parts⟩
    | none => p.text

end Path

end LintLedger
