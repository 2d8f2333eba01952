import LintLedger.Decimal.Format
import LintLedger.Decimal.Read
import LintLedger.Directory
import LintLedger.Host.Format
import LintLedger.Host.Script

/-!
# Commands of a host

What a host does when a command is started in a folder: its few commands write out files and texts,
wait, and end with a status.  Nothing can be read from the standard input.  Each run takes some time,
however little.
-/

namespace LintLedger

/-- what a run leaves behind -/
structure ToolOutput where
  stdout : String
  stderr : String
  status : Int
deriving Repr, DecidableEq, Inhabited

namespace Host

/-- a run of a command -/
structure Run where
  /-- what it leaves behind -/
  output : ToolOutput
  /-- how long it waits -/
  seconds : Rat := 0
  /-- whether it ends the script that it stands in -/
  ends : Bool := false
  /-- whether it has written something that is no text -/
  isGarbled : Bool := false

/-- a run that only ends with a status -/
def Run.quiet (status : Int) : Run := { output := ⟨"", "", status⟩ }

/-- a run that only writes a text -/
def Run.writes (s : String) : Run := { output := ⟨s, "", 0⟩ }

/-- a run that only writes bytes -/
def Run.writesBytes (bs : List UInt8) : Run :=
  match String.fromUTF8? bs.toByteArray with
  | some s => .writes s
  | none => { Run.quiet 0 with isGarbled := true }

/-- a run that only complains -/
def Run.complains (s : String) (status : Int) : Run := { output := ⟨"", s, status⟩ }

/-! ### Commands -/

/-- the names under which nothing is ever read -/
def emptyFiles : List String := ["-", "/dev/null"]

/-- the files that are written out one after another -/
def concatenate (d : Directory) (folder : Path) : List String → ToolOutput
  | [] => ⟨"", "", 0⟩
  | name :: rest =>
    let more := concatenate d folder rest
    let p := folder.join (Path.ofText name)
    if emptyFiles.contains name then more
    else
      match d.read? p with
      | some content => { more with stdout := content ++ more.stdout }
      | none =>
        let why := if d.hasFolder p then "Is a directory" else "No such file or directory"
        { more with stderr := "cat: " ++ name ++ ": " ++ why ++ "\n" ++ more.stderr, status := 1 }

/-- the words of a line, with a line end unless the first word is `-n` -/
def line (words : List String) : String :=
  match words with
  | "-n" :: rest => String.intercalate " " rest
  | _ => String.intercalate " " words ++ "\n"

/-- the names of what lies in a folder, hidden ones apart, in order -/
def listing (d : Directory) (folder : Path) : List String :=
  let names := (d.files.map Prod.fst ++ d.folders).filterMap fun p =>
    (Path.below? folder.resolve.parts p.parts).bind List.head?
  (names.filter fun n => !n.startsWith ".").eraseDups.mergeSort fun a b => !(b < a)

/-- how long a wait takes, in seconds -/
def waitTime (word : String) : Rat :=
  match (Decimal.float? word).bind Decimal.rational? with
  | some q => if 0 ≤ q then q else 0
  | none => 0

/-- the complaint of a program that has been given nothing to work on -/
def missingOperand (name : String) : Run :=
  .complains (name ++ ": missing operand\nTry '" ++ name ++ " --help' for more information.\n") 1

/-- an echo; a script resolves escapes in any echo, a program if it is told so -/
def echo (inScript : Bool) (words : List String) : Run :=
  match inScript, words with
  | false, "-e" :: words => .writesBytes (resolved .echoed (line words))
  | false, words => .writes (line words)
  | true, words => .writesBytes (resolved .echoed (line words))

/-- a format written out -/
def printFormat (inScript : Bool) : List String → Run
  | [] =>
    if inScript then .complains "sh: 1: printf: usage: printf format [arg ...]\n" 2
    else missingOperand "printf"
  | format :: words => .writesBytes (filled (if inScript then .script else .program) format words)

/-- the run of a command that stands in a script as well as alone -/
def plainRun (d : Directory) (folder : Path) (inScript : Bool) (name : String)
    (args : List String) : Option Run :=
  match name, args with
  | "true", _ | ":", _ => some (.quiet 0)
  | "false", _ => some (.quiet 1)
  | "cat", args => some { output := concatenate d folder args }
  | "echo", args => some (echo inScript args)
  | "printf", args => some (printFormat inScript args)
  | "pwd", _ => some (.writes (folder.resolve.text ++ "\n"))
  | "ls", [] => some (.writes (String.join ((listing d folder).map (· ++ "\n"))))
  | "sleep", [] => some (missingOperand "sleep")
  | "sleep", args =>
    some { output := ⟨"", "", 0⟩, seconds := (args.map waitTime).foldl (· + ·) 0 }
  | _, _ => none

/-- a word with its parts looked up -/
def wordText (status : Int) (w : Word) : String :=
  String.join (w.map fun g =>
    match g with
    | .char c => String.singleton c
    | .status => (if status < 0 then "-" else "") ++ Decimal.digitText status.natAbs
    | .self => "$$")

/-- the number of a signal, which may stand behind a dash -/
def signal? (s : String) : Option Int :=
  match s with
  | "-9" | "-KILL" => some 9
  | "-15" | "-TERM" => some 15
  | "-2" | "-INT" => some 2
  | "-1" | "-HUP" => some 1
  | "-6" | "-ABRT" => some 6
  | _ => none

/-- the run of a command in a script, `status` being that of the command before -/
def scriptRun (d : Directory) (folder : Path) (status : Int) : List String → Run
  | [] => .quiet 0
  | name :: args =>
    match name, args with
    | "exit", [] => { output := ⟨"", "", status⟩, ends := true }
    | "exit", n :: _ =>
      match n.toNat? with
      | some n => { output := ⟨"", "", ((n % 256 : Nat) : Int)⟩, ends := true }
      | none => { output := ⟨"", "sh: 1: exit: Illegal number: " ++ n ++ "\n", 2⟩, ends := true }
    | "kill", ["$$"] => { output := ⟨"", "", -15⟩, ends := true }
    | "kill", [s, "$$"] =>
      match signal? s with
      | some n => { output := ⟨"", "", -n⟩, ends := true }
      | none => .quiet 1
    | _, _ =>
      match plainRun d folder true name args with
      | some run => run
      | none => .complains ("sh: 1: " ++ name ++ ": not found\n") 127

/-- the run of a command whose standard input may be a file -/
def fedRun (d : Directory) (folder : Path) (status : Int) (words : List String)
    (input : Option String) : Run :=
  match input with
  | none => scriptRun d folder status words
  | some name =>
    if !emptyFiles.contains name && !d.hasFile (folder.join (Path.ofText name)) then
      .complains ("sh: 1: cannot open " ++ name ++ ": No such file\n") 2
    else
      match words with
      | ["cat"] | ["cat", "-"] => { output := concatenate d folder [name] }
      | words => scriptRun d folder status words

/-- what a run leaves behind once its output has been sent where it has to go -/
def redirected (o : ToolOutput) (r : Redirect) : ToolOutput :=
  match r.source, r.target with
  | .out, .err => { o with stdout := "", stderr := o.stderr ++ o.stdout }
  | .err, .out => { o with stderr := "", stdout := o.stdout ++ o.stderr }
  | .out, .nowhere => { o with stdout := "" }
  | .err, .nowhere => { o with stderr := "" }
  | _, _ => o

/-- whether a command is run after one that ended with a status -/
def Joiner.holds (status : Int) : Joiner → Bool
  | .always => true
  | .onSuccess => status = 0
  | .onFailure => status ≠ 0

/-- a script that has run up to here, run on -/
def runCommands (d : Directory) (folder : Path) : Run → List Command → Run
  | done, [] => done
  | done, c :: rest =>
    let status := done.output.status
    if !c.joiner.holds status then runCommands d folder done rest
    else
      let run := fedRun d folder status (c.words.map (wordText status))
        (c.input.map (wordText status))
      let output := c.redirects.foldl redirected run.output
      let next : Run := {
        output := ⟨done.output.stdout ++ output.stdout, done.output.stderr ++ output.stderr,
          output.status⟩
        seconds := done.seconds + run.seconds
        ends := run.ends
        isGarbled := done.isGarbled || run.isGarbled }
      if run.ends then next else runCommands d folder next rest

/-- a script run from its start -/
def runScript (d : Directory) (folder : Path) (script : String) : Run :=
  match commands? script with
  | none => .complains "sh: 1: Syntax error: Unterminated quoted string\n" 2
  | some cs => runCommands d folder (.quiet 0) cs

/-- the last part of a path to one of the folders in which commands lie -/
def commandName (s : String) : String :=
  let p := Path.ofText s
  if p.isAbsolute && (p.parts.dropLast = ["bin"] || p.parts.dropLast = ["usr", "bin"]) then
    p.parts.getLastD s
  else s

/-- the run of the command interpreter -/
def shell (d : Directory) (folder : Path) : List String → Run
  | [] => .quiet 0
  | ["-c"] => .complains "sh: 0: -c requires an argument\n" 2
  | "-c" :: script :: _ => runScript d folder script
  | name :: _ =>
    match d.read? (folder.join (Path.ofText name)) with
    | some script => runScript d folder script
    | none => .complains ("sh: 0: cannot open " ++ name ++ ": No such file\n") 2

/-- a run as it is seen from outside: if anything that it wrote is no text, all of it is lost -/
def Run.seen (r : Run) : Run :=
  if r.isGarbled then { r with output := ⟨"", "", r.output.status⟩ } else r

/-- whether a command names something that is there but cannot be started -/
def isBarred (d : Directory) (folder : Path) : List String → Bool
  | [] => false
  | name :: _ =>
    let p := folder.join (Path.ofText name)
    name = "" || (name.toList.contains '/' && (d.hasFile p || d.hasFolder p))

/-- the run of a command that a host is asked for; none if the host does not know it -/
def run? (d : Directory) (folder : Path) : List String → Option Run
  | [] => none
  | name :: args =>
    match commandName name with
    | ":" => none
    | "sh" => some (shell d folder args).seen
    | command => (plainRun d folder false command args).map Run.seen

end Host

end LintLedger
