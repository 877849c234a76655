import SourceLint.Span
import SourceLint.Text.Search

/-!
# Lines of a source text

A line starts at the beginning of the text and after every newline. The index keeps the starts, so
the line of an offset is found by binary search. Lines and columns count from 1, and columns count
characters.
-/

namespace SourceLint

/-- The offsets just behind the newlines of a text whose first byte has offset `offset`. -/
def offsetsAfterNewlines (offset : Nat) : List Char → List Nat
  | [] => []
  | c :: cs =>
    let next := offset + c.utf8Size
    if c = '\n' then next :: offsetsAfterNewlines next cs else offsetsAfterNewlines next cs

/-- A source text with the offsets at which its lines start. -/
structure LineIndex where
  content : String
  starts : Array Nat
deriving Repr

/-- A line of a source text: its number, its span and its text, without the characters that end
it. -/
structure Line where
  number : Nat
  span : Span
  text : String
deriving DecidableEq, Repr

namespace LineIndex

def ofString (content : String) : LineIndex :=
  ⟨content, (0 :: offsetsAfterNewlines 0 content.toList).toArray⟩

def lineCount (index : LineIndex) : Nat := index.starts.size

/-- The line that an offset lies on. Offsets past the end lie on the last line. -/
def lineOf (index : LineIndex) (offset : Nat) : Nat :=
  max (partitionPoint index.starts fun start => start ≤ offset) 1

/-- The offset at which a line starts, if there is such a line. -/
def lineStart? (index : LineIndex) (line : Nat) : Option Nat :=
  if line = 0 then none else index.starts[line - 1]?

/-- The offset just behind a line and the newline that ends it. -/
def lineEnd (index : LineIndex) (line : Nat) : Nat :=
  (index.starts[line]?).getD index.content.utf8ByteSize

/-- The text of a line together with the characters that end it. -/
def lineChars (index : LineIndex) (line : Nat) : List Char :=
  let start := (index.lineStart? line).getD 0
  (((Span.ofBounds start (index.lineEnd line)).slice? index.content).map String.toList).getD []

/-- The line and the column of an offset. An offset past the end stands for the end, and an offset
inside a character for that character. -/
def position (index : LineIndex) (offset : Nat) : Nat × Nat :=
  let offset := min offset index.content.utf8ByteSize
  let line := index.lineOf offset
  let start := (index.lineStart? line).getD 0
  (line, wholeChars (offset - start) (index.lineChars line) + 1)

/-- The span of a line, without the `\n` or `\r\n` that ends it. -/
def lineSpan? (index : LineIndex) (line : Nat) : Option Span := do
  let start ← index.lineStart? line
  let stop := match index.starts[line]? with
    | some next => next - 1
    | none => index.content.utf8ByteSize
  let span := Span.ofBounds start stop
  match (span.slice? index.content).bind fun text => text.toList.getLast? with
  | some '\r' => return Span.ofBounds start (stop - 1)
  | _ => return span

/-- All lines of the text in order. -/
def lines (index : LineIndex) : List Line :=
  (List.range' 1 index.lineCount).filterMap fun number => do
    let span ← index.lineSpan? number
    let text ← span.slice? index.content
    return ⟨number, span, text⟩

end LineIndex

end SourceLint
