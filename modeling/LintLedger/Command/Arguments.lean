/-!
# Arguments

Arguments are taken apart into options and the others.  A long option stands behind two dashes and may
have its value behind an equals sign or in the next argument; short options stand behind one dash,
several of them together, and the value of the last may follow at once.  Two dashes alone end the
options.  Of an option that is given more than once the last counts.
-/

namespace LintLedger.Command

/-- a name that sets an option -/
structure Switch where
  name : String
  option : String
  /-- what it sets the option to, or nothing if it takes a value -/
  value : Option String := none
deriving Repr, DecidableEq, Inhabited

/-- arguments taken apart -/
structure Arguments where
  /-- options with their values, the last of them first -/
  options : List (String × String) := []
  others : List String := []
deriving Repr, DecidableEq, Inhabited

namespace Arguments

/-- the value of an option, if it is given -/
def get? (a : Arguments) (option : String) : Option String := a.options.lookup option

/-- what a run of short options sets, and the option that still waits for its value -/
def cluster (switches : List Switch) :
    List Char → List (String × String) → Option (List (String × String) × Option String)
  | [], set => some (set, none)
  | c :: rest, set =>
    match switches.find? fun s => s.name = String.ofList ['-', c] with
    | none => none
    | some s =>
      match s.value with
      | some v => cluster switches rest ((s.option, v) :: set)
      | none =>
        if rest.isEmpty then some (set, some s.option)
        else some ((s.option, String.ofList rest) :: set, none)

/-- what a long option sets, and the option that still waits for its value -/
def long (switches : List Switch) (cs : List Char) (set : List (String × String)) :
    Option (List (String × String) × Option String) :=
  let name := String.ofList (cs.takeWhile (· != '='))
  match switches.find? (fun s => s.name = name), cs.dropWhile (· != '=') with
  | none, _ => none
  | some s, [] =>
    match s.value with
    | some v => some ((s.option, v) :: set, none)
    | none => some (set, some s.option)
  | some s, _ :: given =>
    if s.value.isSome then none else some ((s.option, String.ofList given) :: set, none)

/-- what one argument that begins with a dash sets -/
def option (switches : List Switch) (cs : List Char) (set : List (String × String)) :
    Option (List (String × String) × Option String) :=
  match cs with
  | '-' :: '-' :: _ => long switches cs set
  | _ :: rest => cluster switches rest set
  | [] => none

/-- whether an argument is an option: more than a single dash -/
def isOption (cs : List Char) : Bool := cs.head? = some '-' && 1 < cs.length

/-- arguments taken apart behind what has been taken already; nothing if they cannot be -/
def readOnto (switches : List Switch) (done : Arguments) : List String → Option Arguments
  | [] => some done
  | arg :: rest =>
    if arg = "--" then some { done with others := done.others ++ rest }
    else if isOption arg.toList then
      match option switches arg.toList done.options with
      | none => none
      | some (set, none) => readOnto switches { done with options := set } rest
      | some (set, some waiting) =>
        match rest with
        | [] => none
        | v :: rest => readOnto switches { done with options := (waiting, v) :: set } rest
    else readOnto switches { done with others := done.others ++ [arg] } rest

/-- arguments taken apart; nothing if an option is not known, lacks its value or has one too many -/
def read (switches : List Switch) (args : List String) : Option Arguments :=
  readOnto switches {} args

end Arguments

end LintLedger.Command
