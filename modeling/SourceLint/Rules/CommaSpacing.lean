import SourceLint.Rule.Basic
import SourceLint.Text.Occurrence

/-!
# Spacing around commas

No spacing belongs before a comma and one space behind it, unless the comma begins or ends its line.
Spacing between two commas belongs to the first of them. The rule reports each comma outside comments
and strings with other spacing, and its edit writes the comma anew with the spacing it should have.
-/

namespace SourceLint.CommaSpacing

def identifier : String := "comma-spacing"

def description : Description where
  identifier := identifier
  name := "Comma Spacing"
  explanation := "There should be no space before and one after any comma."
  category := .style
  nonTriggering := [
    "func abc(a: String, b: String) \x7b \x7d",
    "abc(a: \"string\", b: \"string\")",
    "enum a \x7b case a, b, c \x7d",
    "let result = plus(\n    first: 3,\n    second: 4\n)",
    "let text = \"a ,b\"",
    "// a ,b",
    "let a = [1,\n    2]"].map Example.ofMarked
  triggering := [
    "func abc(a: String↓ ,b: String) \x7b \x7d",
    "func abc(a: String↓,b: String) \x7b \x7d",
    "abc(a: \"string\"↓,b: \"string\")",
    "enum a \x7b case a↓ ,b \x7d",
    "let result = plus(first: 3↓ , second: 4)",
    "let a = [1↓,  2]"].map Example.ofMarked
  corrections := [
    ⟨.ofMarked "func abc(a: String↓,b: String) \x7b\x7d",
      "func abc(a: String, b: String) \x7b\x7d"⟩,
    ⟨.ofMarked "abc(a: \"string\"↓,b: \"string\")", "abc(a: \"string\", b: \"string\")"⟩,
    ⟨.ofMarked "enum a \x7b case a↓ ,b \x7d", "enum a \x7b case a, b \x7d"⟩,
    ⟨.ofMarked "let a = [1↓ ,  2]", "let a = [1, 2]"⟩,
    ⟨.ofMarked "let a = [1↓ ,\n    2]", "let a = [1,\n    2]"⟩]

/-- A comma at an offset of a text, with the text before it, last character first, and the text
behind it. -/
structure Site where
  offset : Nat
  before : List Char
  after : List Char
deriving DecidableEq, Repr

/-- The commas of a text that begins at `offset` behind other text, last character first. -/
def sitesFrom (offset : Nat) (before : List Char) : List Char → List Site
  | [] => []
  | c :: cs =>
    let later := sitesFrom (offset + c.utf8Size) (c :: before) cs
    if c = ',' then ⟨offset, before, cs⟩ :: later else later

/-- The commas of a text. -/
def sites (cs : List Char) : List Site := sitesFrom 0 [] cs

namespace Site

/-- How much spacing is out of place before the comma. Spacing that begins a line indents it, and
spacing behind another comma belongs to that one. -/
def excessBefore (site : Site) : Nat :=
  match site.before.dropWhile isSpacing with
  | [] | '\n' :: _ | ',' :: _ => 0
  | _ => (site.before.takeWhile isSpacing).length

/-- The comma is the last thing on its line, spacing apart. -/
def endsLine (site : Site) : Bool :=
  match site.after.dropWhile isSpacing with
  | [] | '\n' :: _ | '\r' :: _ => true
  | _ => false

/-- The edit that gives the comma its spacing, unless it has it. -/
def correction? (site : Site) : Option Correction :=
  let start := site.offset - site.excessBefore
  let spacing := site.after.takeWhile isSpacing
  if site.endsLine then
    if site.excessBefore = 0 then none else some ⟨.ofBounds start (site.offset + 1), ","⟩
  else if site.excessBefore = 0 ∧ spacing = [' '] then none
  else some ⟨.ofBounds start (site.offset + 1 + spacing.length), ", "⟩

end Site

def violation (severity : Severity) (correction : Correction) : Violation where
  rule := identifier
  severity := severity
  offset := correction.span.location
  reason := "There should be no space before and one after any comma"
  correction := some correction

def violations (severity : Severity) (context : Context) : List Violation :=
  let commas := (sites context.source.toList).filter fun site =>
    context.accepts (.excluding [.comment, .string]) ⟨site.offset, 1⟩
  (commas.filterMap Site.correction?).map (violation severity)

def rule (options : SeverityOptions) : Rule where
  description := description
  check := .file (violations options.severity)
  severity := options.severity
  isCorrectable := true
  defaultSection := Options.defaultSection identifier (SeverityOptions.toJson {})

end SourceLint.CommaSpacing
