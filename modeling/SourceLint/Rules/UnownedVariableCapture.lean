import SourceLint.Rule.Basic

/-!
# Unowned captures

A closure that captures a variable as unowned fails when the variable is gone. The rule reports each
`unowned` in the capture list of a closure.
-/

namespace SourceLint.UnownedVariableCapture

def identifier : String := "unowned-variable-capture"

def description : Description where
  identifier := identifier
  name := "Unowned Variable Capture"
  explanation := "Prefer capturing references as weak to avoid potential crashes."
  category := .lint
  minimumVersion := some ⟨5, 0⟩
  isOptIn := true
  nonTriggering := [
    "foo \x7b [weak self] in _ \x7d",
    "foo \x7b [weak self] param in _ \x7d",
    "foo \x7b [weak bar] in _ \x7d",
    "foo \x7b [weak bar] param in _ \x7d",
    "foo \x7b bar in _ \x7d",
    "foo \x7b $0 \x7d",
    "final class First \x7b\x7d\nfinal class Second \x7b\n    unowned var value: First\n" ++
      "    init(value: First) \x7b\n        self.value = value\n    \x7d\n\x7d"].map Example.ofMarked
  triggering := [
    "foo \x7b [↓unowned self] in _ \x7d",
    "foo \x7b [↓unowned bar] in _ \x7d",
    "foo \x7b [bar, ↓unowned self] in _ \x7d"].map Example.ofMarked

/-- The part of the body of a closure before its first `in`. -/
def captureSpan? (context : Context) (body : Span) : Option Span :=
  let isIn := fun token : Token => token.kind == .keyword && token.text? context.source == some "in"
  ((context.tokensIn body).find? isIn).map fun token => .ofBounds body.location token.span.location

/-- The attribute is spelled `unowned`. -/
def isUnowned (context : Context) (modifier : Attribute) : Bool :=
  modifier.kind == .weak && context.contents? modifier.span == some "unowned"

/-- The `unowned` of a local variable that is declared within a span. -/
def unownedWithin? (context : Context) (captures : Span) (node : Node) : Option Attribute :=
  if node.kind == .varLocal && captures.covers node.span then
    node.attributes.find? (isUnowned context)
  else none

def violation (severity : Severity) (modifier : Attribute) : Violation where
  rule := identifier
  severity := severity
  offset := modifier.span.location
  reason := "Prefer capturing references as weak to avoid potential crashes"

def violations (severity : Severity) (context : Context) (node : Node) : List Violation :=
  match node.body.bind (captureSpan? context) with
  | some captures =>
    ((Node.levels context.snapshot.forest).filterMap (unownedWithin? context captures)).map
      (violation severity)
  | none => []

def rule (options : SeverityOptions) : Rule where
  description := description
  check := .nodes [.closure] (violations options.severity)
  severity := options.severity
  defaultSection := Options.defaultSection identifier (SeverityOptions.toJson {})

end SourceLint.UnownedVariableCapture
