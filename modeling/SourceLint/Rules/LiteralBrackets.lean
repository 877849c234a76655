import SourceLint.Rule.Basic
import SourceLint.Text.Occurrence

/-!
# Brackets of literals on several lines

When a literal takes several lines, its opening bracket ends a line and its closing bracket begins
one. The rule reports each bracket that does not.
-/

namespace SourceLint.LiteralBrackets

def identifier : String := "multiline-literal-brackets"

def description : Description where
  identifier := identifier
  name := "Multiline Literal Brackets"
  explanation := "Multiline literals should have their surrounding brackets in a new line."
  category := .style
  isOptIn := true
  nonTriggering := [
    "let trio = [\"harry\", \"ronald\", \"hermione\"]",
    "let houseCup = [\"gryffindor\": 460, \"hufflepuff\": 370]",
    "let trio = [\n    \"harry\",\n    \"ronald\",\n    \"hermione\"\n]",
    "let houseCup = [\n    \"gryffindor\": 460,\n    \"hufflepuff\": 370\n]",
    "let a = [\n  1,\n  2\n]",
    "let empty = [\n]"].map Example.ofMarked
  triggering := [
    "let trio = [↓\"harry\",\n    \"ronald\",\n    \"hermione\"\n]",
    "let houseCup = [↓\"gryffindor\": 460,\n    \"hufflepuff\": 370\n]",
    "let trio = [\n    \"harry\",\n    \"ronald\",\n    \"hermione\"↓]",
    "let a = [↓1,\n  2↓]",
    "foo(bar: [\n    1,\n    2↓])"].map Example.ofMarked

/-- The text has only spacing before its first newline. -/
def startsWithNewline (cs : List Char) : Bool := (cs.dropWhile isSpacing).head? == some '\n'

/-- The text has only spacing behind its last newline. -/
def endsWithNewline (cs : List Char) : Bool := startsWithNewline cs.reverse

def violation (severity : Severity) (offset : Nat) (reason : String) : Violation where
  rule := identifier
  severity := severity
  offset := offset
  reason := reason

/-- What the rule says about a literal with the given body and the text of that body. -/
def violationsIn (severity : Severity) (body : Span) (text : List Char) : List Violation :=
  let opening := violation severity body.location
    "Multiline literal should have its opening bracket followed by a newline"
  let closing := violation severity body.stop
    "Multiline literal should have its closing bracket on a new line"
  if text.contains '\n' then
    (if startsWithNewline text then [] else [opening]) ++
      (if endsWithNewline text then [] else [closing])
  else []

def violations (severity : Severity) (context : Context) (node : Node) : List Violation :=
  match node.body with
  | some body =>
    match context.contents? body with
    | some text => violationsIn severity body text.toList
    | none => []
  | none => []

def rule (options : SeverityOptions) : Rule where
  description := description
  check := .nodes [.array, .dictionary] (violations options.severity)
  severity := options.severity
  defaultSection := Options.defaultSection identifier (SeverityOptions.toJson {})

end SourceLint.LiteralBrackets
