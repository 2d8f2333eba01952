import LintLedger.Violation

/-!
# The catalogue of rules

What is known of the rules and codes of the analyzers: the category and severity of a lint rule, the
category of a compiler code, the lint rules that need types, and what to do about each category.
-/

namespace LintLedger.Catalog

open Category in
/-- the lint rules that are known, with what they are about and how much they matter -/
def lintRules : List (String × Category × Severity) :=
  [
    ("no-console", codeQuality, .warn),
    ("no-debugger", codeQuality, .error),
    ("prefer-const", style, .warn),
    ("no-var", style, .warn),
    ("no-floating-promises", performance, .error),
    ("@typescript-eslint/no-floating-promises", performance, .error),
    ("no-restricted-imports", architecture, .warn),
    ("no-unused-vars", unusedVars, .warn),
    ("@typescript-eslint/no-unused-vars", unusedVars, .warn),
    ("@typescript-eslint/prefer-nullish-coalescing", modernization, .info),
    ("@typescript-eslint/prefer-optional-chain", modernization, .info),
    ("unicorn/prefer-node-protocol", modernization, .info),
    ("unicorn/prefer-module", modernization, .info),
    ("unicorn/prefer-array-flat-map", modernization, .info),
    ("unicorn/prefer-string-starts-ends-with", modernization, .info),
    ("unicorn/prefer-number-properties", modernization, .info),
    ("unicorn/prefer-spread", modernization, .info),
    ("unicorn/no-array-instanceof", modernization, .info),
    ("unicorn/explicit-length-check", modernization, .info),
    ("unicorn/no-useless-undefined", modernization, .info),
    ("@typescript-eslint/explicit-function-return-type", legacyTypeRule, .info),
    ("@typescript-eslint/explicit-module-boundary-types", legacyTypeRule, .info),
    ("@typescript-eslint/no-explicit-any", legacyTypeRule, .info),
    ("@typescript-eslint/no-non-null-assertion", nullSafety, .warn),
    ("@typescript-eslint/ban-ts-comment", codeQuality, .warn),
    ("@typescript-eslint/no-deprecated", maintainability, .warn),
    ("complexity", complexity, .warn),
    ("max-depth", complexity, .warn),
    ("no-eval", security, .error),
    ("no-implied-eval", security, .error),
    ("parse-error", syntaxError, .error)]

/-- what is assumed of a lint rule that is not known -/
def unknownLintRule : Category × Severity := (.otherEslint, .info)

/-- the category and severity of a lint rule; no rule counts as an unknown one -/
def lintRule (rule : String) : Category × Severity := (lintRules.lookup rule).getD unknownLintRule

open Category in
/-- the compiler codes that are known, by what they are about -/
def compilerCodes : List (Category × List String) :=
  [
    (importError, ["2307", "2305", "2306", "1016", "1259", "1192", "2614"]),
    (unknownReference, ["2304", "2339", "2552", "2551"]),
    (typeMismatch, ["2322", "2345", "2741", "2769"]),
    (cast, ["2352"]),
    (annotated, ["7006", "7005", "7031"]),
    (recordType, ["7053"]),
    (returnType, ["7010", "2366"]),
    (nullSafety, ["2531", "2532", "18047", "18048"]),
    (genericConstraint, ["2344"]),
    (genericUnknown, ["2571", "18046"]),
    (unusedVars, ["6133", "6192", "6196"]),
    (syntaxError, ["1005", "1109", "1128", "1003"]),
    (setupIssue, ["5023", "5083", "18003"])]

/-- a letter whose capital form starts with `S`: also the long s, the sharp s and two ligatures -/
def isCapitalS (c : Char) : Bool :=
  c = 's' || c = 'S' || c = 'ſ' || c = 'ß' || c = '\ufb05' || c = '\ufb06'

/-- the digits of a compiler code, which may stand behind `TS` in any case -/
def codeNumber (code : String) : String :=
  match code.toList with
  | t :: s :: rest => if (t = 't' || t = 'T') && isCapitalS s then String.ofList rest else code
  | _ => code

/-- the category of a compiler code -/
def compilerCode (code : String) : Category :=
  ((compilerCodes.find? fun entry => entry.2.contains (codeNumber code)).map Prod.fst).getD .other

/-- the lint rules that need the types of the program, which is the compiler's job -/
def typeAwareRules : List String :=
  [
    "@typescript-eslint/explicit-function-return-type",
    "@typescript-eslint/explicit-module-boundary-types",
    "@typescript-eslint/no-explicit-any",
    "@typescript-eslint/no-implicit-any-catch",
    "@typescript-eslint/strict-boolean-expressions",
    "@typescript-eslint/prefer-includes",
    "@typescript-eslint/prefer-string-starts-ends-with",
    "@typescript-eslint/prefer-readonly",
    "@typescript-eslint/prefer-readonly-parameter-types",
    "@typescript-eslint/require-array-sort-compare",
    "@typescript-eslint/restrict-plus-operands",
    "@typescript-eslint/restrict-template-expressions",
    "@typescript-eslint/unbound-method",
    "@typescript-eslint/prefer-reduce-type-parameter",
    "@typescript-eslint/prefer-return-this-type",
    "@typescript-eslint/promise-function-async",
    "@typescript-eslint/require-await",
    "@typescript-eslint/return-await",
    "@typescript-eslint/no-base-to-string",
    "@typescript-eslint/no-confusing-void-expression",
    "@typescript-eslint/no-meaningless-void-operator",
    "@typescript-eslint/no-unnecessary-boolean-literal-compare",
    "@typescript-eslint/no-unnecessary-condition",
    "@typescript-eslint/no-unnecessary-qualifier",
    "@typescript-eslint/no-unnecessary-type-arguments",
    "@typescript-eslint/no-unnecessary-type-assertion",
    "@typescript-eslint/no-unnecessary-type-constraint",
    "@typescript-eslint/non-nullable-type-assertion-style",
    "@typescript-eslint/prefer-for-of",
    "@typescript-eslint/prefer-function-type",
    "@typescript-eslint/prefer-literal-enum-member",
    "@typescript-eslint/prefer-namespace-keyword",
    "@typescript-eslint/prefer-nullish-coalescing",
    "@typescript-eslint/prefer-optional-chain"]

/-- whether a lint rule needs the types of the program -/
def isTypeAware (rule : String) : Bool := typeAwareRules.contains rule

/-- what to do about a category of violation, where there is something to say -/
def fixFor? : Category → Option String
  | .unusedVars => some "Remove the unused binding or prefix it with an underscore."
  | .unusedExport => some "Remove the export or the declaration if nothing imports it."
  | .codeQuality => some "Remove debugging statements before committing."
  | .style => some "Use const for bindings that are never reassigned."
  | .modernization =>
    some "Apply the suggested modern syntax (optional chaining, nullish coalescing)."
  | .legacyTypeRule =>
    some "Disable this rule in the linter and rely on strict compiler settings."
  | .importError => some "Check the module path and that the dependency is installed."
  | .unknownReference => some "Declare or import the referenced name."
  | .typeMismatch => some "Align the value with the declared type or widen the declaration."
  | .cast => some "Replace the assertion with a type guard."
  | .annotated => some "Add an explicit type annotation."
  | .nullSafety => some "Guard against null/undefined before dereferencing."
  | .syntaxError => some "Fix the syntax error; the file cannot be analyzed until it parses."
  | .setupIssue => some "Check the analyzer installation and project configuration."
  | _ => none

end LintLedger.Catalog
