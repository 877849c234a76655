import SourceLint.Rule.Basic
import SourceLint.Text.Blank

/-!
# Lengths of lines

The rule reports each line with more characters than a threshold, as an error when the line is longer
than the threshold for errors. On demand it passes over lines that hold nothing but comments and over
lines that hold an address of the web.
-/

namespace SourceLint.LineLength

def identifier : String := "line-length"

def description : Description where
  identifier := identifier
  name := "Line Length"
  explanation := "Lines should not span too many characters."
  category := .metrics
  nonTriggering := [
    String.ofList (List.replicate 120 '/'),
    "let a = 0",
    "let ç = \"çççç\""].map Example.ofMarked
  triggering := [
    "↓let a = \"" ++ String.ofList (List.replicate 111 'x') ++ "\"",
    "let a = 0\n↓" ++ String.ofList (List.replicate 121 '/')].map Example.ofMarked

/-- The character may stand in the scheme of an address, behind its first letter. -/
def isSchemeChar (c : Char) : Bool := c.isAlphanum || c == '+' || c == '.' || c == '-'

/-- The text begins with the colon and the two slashes of an address, and goes on without white
space. -/
def startsAddress : List Char → Bool
  | ':' :: '/' :: '/' :: c :: _ => !isBlank c
  | _ => false

/-- The text holds an address; it begins behind the scheme of one or not. -/
def hasAddressFrom (behindScheme : Bool) : List Char → Bool
  | [] => false
  | c :: cs =>
    (behindScheme && startsAddress (c :: cs)) ||
      hasAddressFrom (c.isAlpha || behindScheme && isSchemeChar c) cs

/-- The text holds an address: a scheme, a colon, two slashes and at least one character more. -/
def hasAddress (cs : List Char) : Bool := hasAddressFrom false cs

/-- The options pass over a line. -/
def isIgnored (options : LineLengthOptions) (context : Context) (line : Line) : Bool :=
  options.ignoresComments && context.accepts (.only [.comment]) line.span ||
    options.ignoresUrls && hasAddress line.text.toList

/-- How serious it is that a line has a number of characters, and the threshold that it exceeds. -/
def verdict (options : LineLengthOptions) (length : Nat) : Severity × Nat :=
  if options.error.value < length then (.error, options.error.value)
  else (.warning, options.warning.value)

def violation (options : LineLengthOptions) (line : Line) : Violation :=
  let length := line.text.length
  let (severity, limit) := verdict options length
  { rule := identifier
    severity := severity
    offset := line.span.location
    reason := s!"Line should be {limit} characters or less; currently it has {length} characters" }

/-- The line has more characters than the smaller threshold. -/
def isTooLong (options : LineLengthOptions) (line : Line) : Bool :=
  min options.warning.value options.error.value < line.text.length

def violations (options : LineLengthOptions) (context : Context) : List Violation :=
  let long := context.lines.lines.filter fun line =>
    isTooLong options line && !isIgnored options context line
  long.map (violation options)

def rule (options : LineLengthOptions) : Rule where
  description := description
  check := .file (violations options)
  defaultSection := Options.defaultSection identifier (LineLengthOptions.toJson {})

end SourceLint.LineLength
