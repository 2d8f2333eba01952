import LintLedger.Value.Compare

/-!
# Violations

What an analyzer reports: a place in a file, what is wrong there, and how the report is classed.
The fields of a report may hold anything, since tools write what they like; a class is either one
that is known or whatever stood in its place.
-/

namespace LintLedger

/-- how much a violation matters -/
inductive Severity where
  | error | warn | info
deriving Repr, DecidableEq, Inhabited

/-- the analyzers that a violation can come from -/
inductive Source where
  | typescript | eslint | unusedExports | parser | complexity | security | performance | custom
deriving Repr, DecidableEq, Inhabited

/-- the kinds of violation -/
inductive Category where
  | typeAlias | annotated | cast | recordType | genericUnknown | unknownReference | brandedType
  | genericConstraint | typeMismatch | nullSafety
  | codeQuality | style | architecture | modernization | unusedVars | unusedExport
  | legacyTypeRule | returnType | noExplicitAny | otherEslint
  | syntaxError | parseError | importError | setupIssue
  | complexity | maintainability | security | performance | other
deriving Repr, DecidableEq, Inhabited

namespace Severity

/-- the severities, the gravest first -/
def all : List Severity := [error, warn, info]

/-- the name of a severity -/
def name : Severity → String
  | error => "error"
  | warn => "warn"
  | info => "info"

/-- the severity of a name -/
def ofName? (s : String) : Option Severity := all.find? fun v => v.name = s

/-- the place of a severity in an order that puts the gravest first -/
def rank : Severity → Nat
  | error => 0
  | warn => 1
  | info => 2

end Severity

namespace Source

/-- the analyzers -/
def all : List Source :=
  [typescript, eslint, unusedExports, parser, complexity, security, performance, custom]

/-- the name of an analyzer -/
def name : Source → String
  | typescript => "typescript"
  | eslint => "eslint"
  | unusedExports => "unused-exports"
  | parser => "parser"
  | complexity => "complexity"
  | security => "security"
  | performance => "performance"
  | custom => "custom"

/-- the analyzer of a name -/
def ofName? (s : String) : Option Source := all.find? fun v => v.name = s

end Source

namespace Category

/-- the kinds of violation -/
def all : List Category :=
  [
    typeAlias, annotated, cast, recordType, genericUnknown, unknownReference, brandedType,
    genericConstraint, typeMismatch, nullSafety, codeQuality, style, architecture, modernization,
    unusedVars, unusedExport, legacyTypeRule, returnType, noExplicitAny, otherEslint, syntaxError,
    parseError, importError, setupIssue, complexity, maintainability, security, performance, other]

/-- the name of a kind of violation -/
def name : Category → String
  | typeAlias => "type-alias"
  | annotated => "annotation"
  | cast => "cast"
  | recordType => "record-type"
  | genericUnknown => "generic-unknown"
  | unknownReference => "unknown-reference"
  | brandedType => "branded-type"
  | genericConstraint => "generic-constraint"
  | typeMismatch => "type-mismatch"
  | nullSafety => "null-safety"
  | codeQuality => "code-quality"
  | style => "style"
  | architecture => "architecture"
  | modernization => "modernization"
  | unusedVars => "unused-vars"
  | unusedExport => "unused-export"
  | legacyTypeRule => "legacy-type-rule"
  | returnType => "return-type"
  | noExplicitAny => "no-explicit-any"
  | otherEslint => "other-eslint"
  | syntaxError => "syntax-error"
  | parseError => "parse-error"
  | importError => "import-error"
  | setupIssue => "setup-issue"
  | complexity => "complexity"
  | maintainability => "maintainability"
  | security => "security"
  | performance => "performance"
  | other => "other"

/-- the kind of violation of a name -/
def ofName? (s : String) : Option Category := all.find? fun v => v.name = s

end Category

/-- a class: one that is known, or what stood in its place -/
inductive Label (α : Type) where
  | known (a : α)
  | raw (v : Value)
deriving Inhabited

namespace Label

/-- the class that a value names, or the value itself -/
def ofValue {α : Type} (ofName? : String → Option α) (v : Value) : Label α :=
  match v with
  | .text s => match ofName? s with
    | some a => known a
    | none => raw v
  | _ => raw v

/-- the name of a class, or what stood in its place -/
def toValue {α : Type} (name : α → String) : Label α → Value
  | known a => .text (name a)
  | raw v => v

/-- the class itself, if it is known -/
def get? {α : Type} : Label α → Option α
  | known a => some a
  | raw _ => none

/-- whether a label is the class `a` -/
def isClass {α : Type} [DecidableEq α] (l : Label α) (a : α) : Bool :=
  match l with
  | known b => b = a
  | raw _ => false

/-- the name of a known class; what is unknown has no name to ask for -/
def nameOf {α : Type} (name : α → String) : Label α → Except Fault String
  | known a => .ok (name a)
  | raw v => .error (.lacks v.kind "value")

end Label

/-- one finding of an analyzer -/
structure Violation where
  file : Value
  line : Value
  code : Value
  category : Label Category
  severity : Label Severity
  source : Label Source
  column : Value
  rule : Value
  message : Value
  fix : Value
deriving Inhabited

namespace Violation

/-- the category of a violation, by name or as it was given -/
def categoryValue (v : Violation) : Value := v.category.toValue Category.name

/-- the severity of a violation, by name or as it was given -/
def severityValue (v : Violation) : Value := v.severity.toValue Severity.name

/-- the source of a violation, by name or as it was given -/
def sourceValue (v : Violation) : Value := v.source.toValue Source.name

/-- the message of a violation, or its code if it has none -/
def wording (v : Violation) : Value := if v.message.truthy then v.message else v.code

/-- the place of a violation -/
def location (v : Violation) : Value × Value := (v.file, v.line)

end Violation

end LintLedger
