import LintLedger.Catalog
import LintLedger.Failure
import LintLedger.Order.Insertion
import LintLedger.Settings

/-!
# Crossover

The type analyzer and the linter are meant to do different work.  The detector looks at one batch of
findings and tells where they overlap: lint rules that need types, places that both complain about,
rules that belong to the compiler, and a linter that takes too long.  It never adds a finding.
-/

namespace LintLedger.Crossover

/-- what the detector knows of the two analyzers -/
structure Detector where
  settings : CrossoverSettings
  typeSource : Option Source
  lintSource : Option Source
deriving Inhabited

/-- the source of an analyzer: as it is registered, or else the built-in source of that name -/
def sourceOf (registered : List (String × Source)) (engine : String) : Option Source :=
  match registered.reverse.lookup engine with
  | some s => some s
  | none => Source.ofName? engine

/-- the detector for the analyzers that are registered -/
def Detector.of (settings : CrossoverSettings) (registered : List (String × Source)) : Detector where
  settings := settings
  typeSource := sourceOf registered settings.typeEngine
  lintSource := sourceOf registered settings.lintEngine

/-- values in their order, each only once -/
def distinctValues (vs : List Value) : Except Fault (List Value) := do
  let keyed ← vs.mapM fun v => do
    let key ← v.key
    return (key, v)
  return (distinctBy Prod.fst keyed).map Prod.snd

/-- values joined by commas, which takes texts -/
def joinTexts (position : Nat) : List Value → Except Fault (List String)
  | [] => .ok []
  | .text s :: rest => (joinTexts (position + 1) rest).map (s :: ·)
  | v :: _ => .error (.notJoinable position v.kind)

/-- whether a finding has a lint rule that needs types -/
def hasTypeAwareRule (v : Violation) : Except Fault Bool :=
  if v.rule.truthy then
    match v.rule with
    | .text s => .ok (Catalog.isTypeAware s)
    | r => r.key.map fun _ => false
  else .ok false

/-- the findings of the linter whose rules need types -/
def typeAwareHits (lint : Source) (vs : List Violation) : Except Fault (List Violation) :=
  vs.filterM fun v => if v.source.isClass lint then hasTypeAwareRule v else .ok false

/-- a number in a message -/
def counted (n : Nat) : String := Decimal.digitText n

/-- the warning of lint rules that need types; it is grave if the linter fails builds over one -/
def typeAwareWarnings (d : Detector) (vs : List Violation) : Except Fault (List Warning) := do
  let some lint := d.lintSource | return []
  let hits ← typeAwareHits lint vs
  if hits.isEmpty then return []
  let rules ← joinTexts 0 (← distinctValues (hits.map (·.rule)))
  let files ← distinctValues (hits.map (·.file))
  return [{
    kind := .typeAwareRule
    severity := if hits.any fun v => v.severity.isClass .error then .error else .warn
    message := "Found " ++ counted rules.length
      ++ " type-aware lint rule(s) that duplicate the type analyzer"
    details := "Type-aware rules detected: " ++ String.intercalate ", " rules
      ++ ". These rules need full type information, slow the linter down and repeat what the "
      ++ "compiler already checks."
    suggestion := "Disable these rules in the linter and rely on strict compiler settings "
      ++ "(noImplicitAny, strictNullChecks) for type safety."
    rules := rules
    files := files }]

/-- a place that a finding of one of the two analyzers stands at -/
structure Spot where
  file : Key
  line : Key
deriving DecidableEq

/-- a finding of one of the two analyzers -/
structure Mark where
  spot : Spot
  file : Value
  byType : Bool

/-- the findings of the two analyzers -/
def marks (type lint : Source) (vs : List Violation) : Except Fault (List Mark) :=
  (vs.filter fun v => v.source.isClass type || v.source.isClass lint).mapM fun v => do
    let file ← v.file.key
    let line ← v.line.key
    return ⟨⟨file, line⟩, v.file, v.source.isClass type⟩

/-- the marks at which a place comes first, of the places that both analyzers mark -/
def conflicts (ms : List Mark) : List Mark :=
  (distinctBy Mark.spot ms).filter fun m =>
    (ms.any fun n => n.spot = m.spot && n.byType) && (ms.any fun n => n.spot = m.spot && !n.byType)

/-- the warning of places that both analyzers complain about -/
def duplicateWarnings (d : Detector) (vs : List Violation) : Except Fault (List Warning) := do
  let some type := d.typeSource | return []
  let some lint := d.lintSource | return []
  if type = lint then return []
  let found := conflicts (← marks type lint vs)
  if found.isEmpty then return []
  let files ← distinctValues (found.map (·.file))
  return [{
    kind := .duplicateViolation
    severity := .warn
    message := "Found " ++ counted found.length
      ++ " location(s) flagged by both the type analyzer and the linter"
    details := "Both analyzers report issues at the same locations, which suggests overlapping "
      ++ "responsibilities such as type-aware lint rules."
    suggestion := "Keep the linter on code quality and leave type safety to the compiler."
    rules := []
    files := files }]

/-- the warning of lint rules that belong to the compiler -/
def legacyWarnings (vs : List Violation) : Except Fault (List Warning) := do
  let legacy := vs.filter fun v => v.category.isClass .legacyTypeRule
  if legacy.isEmpty then return []
  let rules ← joinTexts 0 (← distinctValues ((legacy.map (·.rule)).filter (·.truthy)))
  let files ← distinctValues (legacy.map (·.file))
  let named := if rules.isEmpty then "these" else String.intercalate ", " rules
  return [{
    kind := .configurationConflict
    severity := .warn
    message := "Found " ++ counted legacy.length
      ++ " violation(s) from legacy type-aware lint rules"
    details := "Rules like " ++ named
      ++ " are legacy because they duplicate compiler checks and hurt linter performance."
    suggestion := "Move these checks to the compiler configuration: noImplicitAny, "
      ++ "strictNullChecks, noImplicitReturns."
    rules := rules
    files := files }]

/-- the time that the linter took -/
def lintTime (d : Detector) (reports : List Report) : Amount :=
  match reports.find? fun r => r.engine = d.settings.lintEngine with
  | some r => r.elapsed
  | none => Amount.zero

/-- the warning of a linter that takes too long -/
def slowWarnings (d : Detector) (reports : List Report) : Except Fault (List Warning) := do
  let time := lintTime d reports
  if !time.isAbove d.settings.slowThreshold then return []
  let seconds ← time.rounded
  return [{
    kind := .configurationConflict
    severity := .warn
    message := d.settings.lintEngine ++ " took " ++ (Value.int seconds).quote
      ++ "s, suggesting type-aware rules"
    details := "Linter runs above " ++ Decimal.general d.settings.slowThreshold
      ++ "s usually mean rules that require a full type-checked program."
    suggestion := "Disable type-aware lint rules for faster feedback and let the compiler check "
      ++ "types."
    rules := []
    files := [] }]

/-- all warnings about a batch of findings and the runs that it came from -/
def Detector.analyze (d : Detector) (vs : List Violation) (reports : List Report) :
    Except Fault (List Warning) := do
  if !d.settings.enabled then return []
  let typeAware ← if d.settings.warnOnTypeAwareRules then typeAwareWarnings d vs else pure []
  let duplicate ← if d.settings.warnOnDuplicates then duplicateWarnings d vs else pure []
  let legacy ← legacyWarnings vs
  let slow ← slowWarnings d reports
  return typeAware ++ duplicate ++ legacy ++ slow

/-- the warnings that a failure policy looks at -/
def critical (ws : List Warning) : List Warning := ws.filter fun w => w.severity = .error

/-- texts in increasing order -/
def sortTexts (texts : List String) : List String := texts.mergeSort fun a b => !(b < a)

/-- files in increasing order -/
def sortFiles (files : List Value) : Except Fault (List String) := do
  let files ← distinctValues files
  match Order.firstFailure? Value.before files with
  | some fault => .error fault
  | none => (joinTexts 0 files).map sortTexts

/-- a part of a message that names texts, if there are any -/
def namedPart (what : String) (texts : List String) : List String :=
  if texts.isEmpty then [] else [what ++ ": " ++ String.intercalate ", " texts]

/-- the wording of a failure over critical warnings -/
def policyMessage (ws : List Warning) : Except Fault String := do
  let rules := sortTexts (distinct (ws.flatMap (·.rules)))
  let files ← sortFiles (ws.flatMap (·.files))
  return String.intercalate "; "
    (["Critical crossover between the type analyzer and the linter"]
      ++ namedPart "rules" rules ++ namedPart "files" files
      ++ ["disable these rules in the linter or set crossover.fail_on_crossover to false"])

/-- fails over critical warnings if the settings ask for that -/
def Detector.enforce (d : Detector) (ws : List Warning) : Except Failure Unit :=
  if d.settings.failOnCrossover && !(critical ws).isEmpty then
    match policyMessage (critical ws) with
    | .ok message => .error (.crossover message (critical ws))
    | .error fault => .error (.fault fault)
  else .ok ()

/-- what to do about overlap in general -/
def advice : List String :=
  [
    "Linter focus: code quality, style and architecture rules (no-console, prefer-const).",
    "Compiler focus: all type safety (strict, noImplicitAny, strictNullChecks).",
    "Performance: disabling type-aware lint rules typically speeds the linter up 5-10x.",
    "Configuration: keep the TypeScript lint plugin to syntax-only rules.",
    "Monitoring: keep crossover detection enabled to preserve the separation."]

end LintLedger.Crossover
