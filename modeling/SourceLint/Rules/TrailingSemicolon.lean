import SourceLint.Rule.Basic
import SourceLint.Text.Occurrence

/-!
# Semicolons at the end of a line

A run of semicolons with nothing but spacing between it and the end of its line has no use. The rule
reports each such run outside comments and strings, and its edit removes the run.
-/

namespace SourceLint.TrailingSemicolon

def identifier : String := "trailing-semicolon"

def description : Description where
  identifier := identifier
  name := "Trailing Semicolon"
  explanation := "Lines should not have trailing semicolons."
  category := .idiomatic
  nonTriggering := [
    "let a = 0",
    "let a = 0; let b = 1",
    "let a = \"0;\"",
    "let a = 0 // done;",
    "/* block; */\nlet a = 0"].map Example.ofMarked
  triggering := [
    "let a = 0↓;\n",
    "let a = 0↓;\nlet b = 1",
    "let a = 0↓;;\n",
    "let a = 0↓;    \n"].map Example.ofMarked
  corrections := [
    ⟨.ofMarked "let foo = 0↓;\n", "let foo = 0\n"⟩,
    ⟨.ofMarked "let foo = 0↓;\nlet bar = 1", "let foo = 0\nlet bar = 1"⟩,
    ⟨.ofMarked "let foo = 0↓;;\n", "let foo = 0\n"⟩,
    ⟨.ofMarked "let foo = 0↓;    \n", "let foo = 0    \n"⟩]

/-- Nothing but spacing stands before the end of the line, which may have a carriage return. -/
def isRestBlank (cs : List Char) : Bool :=
  match cs.dropWhile isSpacing with
  | [] | '\n' :: _ | ['\r'] | '\r' :: '\n' :: _ => true
  | _ => false

/-- The runs of semicolons at the ends of lines, in a text that begins at `offset` right behind `run`
semicolons. -/
def runsFrom (offset run : Nat) : List Char → List Span
  | [] => if run = 0 then [] else [⟨offset - run, run⟩]
  | c :: cs =>
    if c = ';' then runsFrom (offset + 1) (run + 1) cs
    else
      let later := runsFrom (offset + c.utf8Size) 0 cs
      if run ≠ 0 && isRestBlank (c :: cs) then ⟨offset - run, run⟩ :: later else later

/-- The runs of semicolons at the ends of the lines of a text. -/
def runs (cs : List Char) : List Span := runsFrom 0 0 cs

def violation (severity : Severity) (run : Span) : Violation where
  rule := identifier
  severity := severity
  offset := run.location
  reason := "Lines should not have trailing semicolons"
  correction := some (.deletion run)

def violations (severity : Severity) (context : Context) : List Violation :=
  (context.filterMatches (runs context.source.toList) (.excluding [.comment, .string])).map
    (violation severity)

def rule (options : SeverityOptions) : Rule where
  description := description
  check := .file (violations options.severity)
  severity := options.severity
  isCorrectable := true
  defaultSection := Options.defaultSection identifier (SeverityOptions.toJson {})

end SourceLint.TrailingSemicolon
