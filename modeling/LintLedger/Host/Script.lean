/-!
# Scripts

The scripts that a tool may be started by: simple commands one after another, some of them only if
the one before went well or badly, with quoted words, with input taken from a file and with output
sent elsewhere.
-/

namespace LintLedger.Host

/-- a part of a word: a character, the status of the command before, or the number of the script's
own process -/
inductive Glyph where
  | char (c : Char)
  | status
  | self
deriving Repr, DecidableEq

/-- a word before its parts are looked up -/
abbrev Word := List Glyph

/-- where output goes -/
inductive Stream where
  | out | err | nowhere
deriving Repr, DecidableEq

/-- output of one stream sent to another -/
structure Redirect where
  source : Stream
  target : Stream
deriving Repr, DecidableEq

/-- when a command is run, as told by the status of the one before -/
inductive Joiner where
  | always | onSuccess | onFailure
deriving Repr, DecidableEq

/-- a simple command -/
structure Command where
  joiner : Joiner
  words : List Word
  redirects : List Redirect
  /-- the file that stands for the standard input -/
  input : Option Word
deriving Repr, DecidableEq

/-- what a script is cut into -/
inductive Lexeme where
  | word (w : Word)
  | join (j : Joiner)
  | redirect (r : Redirect)
  /-- output of a stream sent to the file that the next word names -/
  | toFile (source : Stream)
  /-- the file that the next word names as the standard input -/
  | fromFile
deriving Repr, DecidableEq

/-- the kind of quotes that a character stands in, or that it stands in a comment -/
inductive Quotes where
  | none | single | double | comment
deriving Repr, DecidableEq

/-- the word read so far, given in reverse, as a lexeme -/
def flush : Option Word → List Lexeme
  | none => []
  | some w => [.word w.reverse]

/-- the word read so far with one more part -/
def grow (w : Option Word) (g : Glyph) : Option Word := some (g :: w.getD [])

/-- the stream whose number stands in front of an arrow, and the lexemes before it -/
def arrowSource : Option Word → Stream × List Lexeme
  | some [.char '1'] => (.out, [])
  | some [.char '2'] => (.err, [])
  | w => (.out, flush w)

/-- the lexemes of a script; none if a quote is not closed -/
def lexemes : Quotes → Option Word → List Char → Option (List Lexeme)
  | .none, w, [] | .comment, w, [] => some (flush w)
  | _, _, [] => none
  | .comment, w, c :: rest =>
    if c = '\n' then (lexemes .none none rest).map fun ls => .join .always :: ls
    else lexemes .comment w rest
  | .single, w, c :: rest =>
    if c = '\'' then lexemes .none (some (w.getD [])) rest
    else lexemes .single (grow w (.char c)) rest
  | q, w, '$' :: '?' :: rest => lexemes q (grow w .status) rest
  | q, w, '$' :: '$' :: rest => lexemes q (grow w .self) rest
  | .double, w, '\\' :: c :: rest =>
    if c = '$' || c = '"' || c = '\\' || c = Char.ofNat 96 then
      lexemes .double (grow w (.char c)) rest
    else lexemes .double (grow (grow w (.char '\\')) (.char c)) rest
  | .double, w, c :: rest =>
    if c = '"' then lexemes .none (some (w.getD [])) rest
    else lexemes .double (grow w (.char c)) rest
  | .none, none, '#' :: rest => lexemes .comment none rest
  | .none, w, '\\' :: '\n' :: rest => lexemes .none w rest
  | .none, w, '\\' :: c :: rest => lexemes .none (grow w (.char c)) rest
  | .none, w, '&' :: '&' :: rest =>
    (lexemes .none none rest).map fun ls => flush w ++ .join .onSuccess :: ls
  | .none, w, '|' :: '|' :: rest =>
    (lexemes .none none rest).map fun ls => flush w ++ .join .onFailure :: ls
  | .none, w, '>' :: '&' :: '1' :: rest =>
    let (source, before) := arrowSource w
    (lexemes .none none rest).map fun ls => before ++ .redirect ⟨source, .out⟩ :: ls
  | .none, w, '>' :: '&' :: '2' :: rest =>
    let (source, before) := arrowSource w
    (lexemes .none none rest).map fun ls => before ++ .redirect ⟨source, .err⟩ :: ls
  | .none, w, '>' :: rest =>
    let (source, before) := arrowSource w
    (lexemes .none none rest).map fun ls => before ++ .toFile source :: ls
  | .none, w, '<' :: rest =>
    (lexemes .none none rest).map fun ls => flush w ++ .fromFile :: ls
  | .none, w, c :: rest =>
    if c = '\'' then lexemes .single (some (w.getD [])) rest
    else if c = '"' then lexemes .double (some (w.getD [])) rest
    else if c = ';' || c = '\n' then
      (lexemes .none none rest).map fun ls => flush w ++ .join .always :: ls
    else if c = ' ' || c = '\t' then (lexemes .none none rest).map fun ls => flush w ++ ls
    else lexemes .none (grow w (.char c)) rest

/-- the commands of lexemes, `current` being the command read so far; what is sent to a file is not
kept -/
def commandsFrom (current : Command) : List Lexeme → List Command
  | [] => if current.words.isEmpty then [] else [current]
  | .join j :: rest =>
    let more := commandsFrom ⟨j, [], [], none⟩ rest
    if current.words.isEmpty then more else current :: more
  | .toFile source :: .word _ :: rest =>
    commandsFrom { current with redirects := current.redirects ++ [⟨source, .nowhere⟩] } rest
  | .toFile _ :: rest => commandsFrom current rest
  | .fromFile :: .word w :: rest => commandsFrom { current with input := some w } rest
  | .fromFile :: rest => commandsFrom current rest
  | .redirect r :: rest =>
    commandsFrom { current with redirects := current.redirects ++ [r] } rest
  | .word w :: rest => commandsFrom { current with words := current.words ++ [w] } rest

/-- the commands of a script; none if a quote is not closed -/
def commands? (script : String) : Option (List Command) :=
  (lexemes .none none script.toList).map (commandsFrom ⟨.always, [], [], none⟩)

end LintLedger.Host
