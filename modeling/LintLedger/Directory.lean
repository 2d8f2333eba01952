import LintLedger.Path

/-!
# Directories

The files that the program can see, each under its full path, and the folders that are there even
though nothing may lie in them.  A folder in which a file or another folder lies is always there.
-/

namespace LintLedger

/-- the files that the program can see -/
structure Directory where
  files : List (Path × String)
  folders : List Path
deriving Inhabited

namespace Directory

/-- a directory without files -/
def empty : Directory := ⟨[], []⟩

/-- what the file at a path holds, if there is a file -/
def read? (d : Directory) (p : Path) : Option String := d.files.lookup p.resolve

/-- whether there is a file at a path -/
def hasFile (d : Directory) (p : Path) : Bool := (d.read? p).isSome

/-- whether there is a folder at a path -/
def hasFolder (d : Directory) (p : Path) : Bool :=
  let inside (q : Path) : Option (List String) := Path.below? p.resolve.parts q.parts
  d.folders.any (fun q => (inside q).isSome)
    || d.files.any fun f => (inside f.1).any fun parts => !parts.isEmpty

/-- a directory with one more file -/
def insert (d : Directory) (p : Path) (content : String) : Directory :=
  { d with files := d.files ++ [(p.resolve, content)] }

/-- a directory with one more folder -/
def insertFolder (d : Directory) (p : Path) : Directory :=
  { d with folders := d.folders ++ [p.resolve] }

/-- the first file of one of the names, in a folder or in the nearest one above it that has any;
the parts of the folder are given from its end -/
def nearest? (d : Directory) (names : List String) : List String → Option Path
  | [] => (names.map fun n => (⟨.root, [n]⟩ : Path)).find? d.hasFile
  | part :: above =>
    let folder : Path := ⟨.root, (part :: above).reverse⟩
    match (names.map folder.child).find? d.hasFile with
    | some p => some p
    | none => nearest? d names above

end Directory

end LintLedger
