import SourceLint.Rule.Basic

/-!
# Enumerated loops that drop one of the pair

A loop over `xs.enumerated()` binds an index and an item. The rule reports a loop that drops one of
the two, since then it need not enumerate.
-/

namespace SourceLint.UnusedEnumerated

def identifier : String := "unused-enumerated"

def description : Description where
  identifier := identifier
  name := "Unused Enumerated"
  explanation := "When the index or the item is not used, `.enumerated()` can be removed."
  category := .idiomatic
  nonTriggering := [
    "for (idx, foo) in bar.enumerated() \x7b \x7d",
    "for (_, foo) in bar.enumerated().something() \x7b \x7d",
    "for (_, foo) in bar.something() \x7b \x7d",
    "for foo in bar.enumerated() \x7b \x7d",
    "for foo in bar \x7b \x7d",
    "for (idx, _) in bar.enumerateSomething() \x7b \x7d",
    "for (_, _) in bar.enumerated() \x7b \x7d",
    "for (a, b, _) in bar.enumerated() \x7b \x7d",
    "for (idx, _) in bar.enumerated().something() \x7b \x7d",
    "for (idx, _) in bar.something() \x7b \x7d",
    "for idx in bar.indices \x7b \x7d",
    "for (section, (event, _)) in data.enumerated() \x7b\x7d"].map Example.ofMarked
  triggering := [
    "for (↓_, foo) in bar.enumerated() \x7b \x7d",
    "for (↓_, foo) in abc.bar.enumerated() \x7b \x7d",
    "for (↓_, foo) in abc.something().enumerated() \x7b \x7d",
    "for (idx, ↓_) in bar.enumerated() \x7b \x7d",
    "for (↓_, foo) in bar.enumerated() \x7b \x7d\n",
    "for (idx, ↓_) in bar.enumerated() \x7b \x7d\n"].map Example.ofMarked

/-- The node is a call whose name ends in `.enumerated`. -/
def isEnumeratedCall (node : Node) : Bool :=
  node.kind == .call && node.name.any fun name => ".enumerated".toList.isSuffixOf name.toList

/-- The token is the underscore that drops a value. -/
def isDropped (context : Context) (token : Token) : Bool :=
  token.kind == .keyword && token.span.length == 1 && token.text? context.source == some "_"

/-- The underscore of a pair that has one, and what the rule says about it. -/
def finding? (context : Context) (first last : Token) : Option (Token × String) :=
  match isDropped context first, isDropped context last with
  | true, false => some (first, "When the index is not used, `.enumerated()` can be removed.")
  | false, true =>
    some (last, "When the item is not used, `.indices` should be used instead of `.enumerated()`.")
  | _, _ => none

def violation (severity : Severity) (finding : Token × String) : Violation where
  rule := identifier
  severity := severity
  offset := finding.1.span.location
  reason := finding.2

def violations (severity : Severity) (context : Context) (node : Node) : List Violation :=
  if node.children.any isEnumeratedCall then
    match (node.elementSpan? .id).map context.tokensIn with
    | some [first, last] => ((finding? context first last).map (violation severity)).toList
    | _ => []
  else []

def rule (options : SeverityOptions) : Rule where
  description := description
  check := .nodes [.forEach] (violations options.severity)
  severity := options.severity
  defaultSection := Options.defaultSection identifier (SeverityOptions.toJson {})

end SourceLint.UnusedEnumerated
