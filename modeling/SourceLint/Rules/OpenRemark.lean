import SourceLint.Rule.Basic
import SourceLint.Text.Blank
import SourceLint.Text.Occurrence
import SourceLint.Text.Word

/-!
# Remarks about open work

The words TODO and FIXME in a comment mark work that is left. The rule reports each of them and
quotes what the comment says behind it.
-/

namespace SourceLint.OpenRemark

def identifier : String := "todo"

def description : Description where
  identifier := identifier
  name := "Todo"
  explanation := "TODOs and FIXMEs should be resolved."
  category := .lint
  nonTriggering := [
    "// notaTODO:",
    "// notaFIXME:",
    "let TODO = 1",
    "let note = \"TODO: not a comment\""].map Example.ofMarked
  triggering := [
    "// ↓TODO:",
    "// ↓FIXME:",
    "// ↓TODO(note)",
    "// ↓FIXME(note)",
    "/* ↓FIXME */",
    "/* ↓TODO */",
    "/** ↓FIXME */",
    "/// ↓TODO",
    "let a = 1 // ↓TODO: tidy up"].map Example.ofMarked

/-- A word that marks open work, where it stands, and the text behind it. -/
structure Marker where
  word : String
  offset : Nat
  after : List Char
deriving DecidableEq, Repr

/-- The span of the word. -/
def Marker.span (marker : Marker) : Span := ⟨marker.offset, byteLength marker.word.toList⟩

/-- The text does not go on with a word character. -/
def isWordEnd : List Char → Bool
  | [] => true
  | c :: _ => !isWordChar c

/-- The marker that a text at `offset` begins with, if it does. -/
def markerAt? (offset : Nat) : List Char → Option Marker
  | 'T' :: 'O' :: 'D' :: 'O' :: cs => if isWordEnd cs then some ⟨"TODO", offset, cs⟩ else none
  | 'F' :: 'I' :: 'X' :: 'M' :: 'E' :: cs =>
    if isWordEnd cs then some ⟨"FIXME", offset, cs⟩ else none
  | _ => none

/-- The markers of a text that begins at `offset`, within a word or not. -/
def markersFrom (offset : Nat) (withinWord : Bool) : List Char → List Marker
  | [] => []
  | c :: cs =>
    let later := markersFrom (offset + c.utf8Size) (isWordChar c) cs
    match if withinWord then none else markerAt? offset (c :: cs) with
    | some marker => marker :: later
    | none => later

/-- The markers of a text, as words of their own. -/
def markers (cs : List Char) : List Marker := markersFrom 0 false cs

/-- What the comment says behind a marker. -/
def Marker.remark (marker : Marker) : List Char :=
  trimBlanksRight ((restOfRemark marker.after).dropWhile fun c => c == ':' || isSpacing c)

def Marker.reason (marker : Marker) : String :=
  let verdict := marker.word ++ "s should be resolved"
  if marker.remark.isEmpty then verdict
  else verdict ++ " (" ++ String.ofList marker.remark ++ ")"

def violation (severity : Severity) (marker : Marker) : Violation where
  rule := identifier
  severity := severity
  offset := marker.offset
  reason := marker.reason

def violations (severity : Severity) (context : Context) : List Violation :=
  let found := (markers context.source.toList).filter fun marker =>
    context.accepts (.only [.comment]) marker.span
  found.map (violation severity)

def rule (options : SeverityOptions) : Rule where
  description := description
  check := .file (violations options.severity)
  severity := options.severity
  defaultSection := Options.defaultSection identifier (SeverityOptions.toJson {})

end SourceLint.OpenRemark
