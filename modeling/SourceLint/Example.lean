import SourceLint.Text.Offset

/-!
# Examples with marks

The description of a rule shows source texts in which an arrow stands before every place that the
rule reports. Reading such a text takes the arrows out and notes their offsets in what is left;
`Example.marked` puts them back.
-/

namespace SourceLint

/-- The character that marks a violation. -/
def violationMark : Char := '↓'

/-- A source text with the offsets at which violations are expected. -/
structure Example where
  text : String
  offsets : List Nat
deriving DecidableEq, Repr

namespace Example

/-- The characters that are no marks. -/
def unmarked : List Char → List Char
  | [] => []
  | c :: cs => if c = violationMark then unmarked cs else c :: unmarked cs

/-- The offsets of the marks, when the text before them takes `offset` bytes without its marks. -/
def markOffsets (offset : Nat) : List Char → List Nat
  | [] => []
  | c :: cs =>
    if c = violationMark then offset :: markOffsets offset cs
    else markOffsets (offset + c.utf8Size) cs

/-- Put a mark at each of the offsets, which count from a place `offset` bytes before the text. Marks
whose place does not come are left out. -/
def insertMarks (offset : Nat) : List Nat → List Char → List Char
  | [], cs => cs
  | mark :: marks, [] => if mark = offset then violationMark :: insertMarks offset marks [] else []
  | mark :: marks, c :: cs =>
    if mark = offset then violationMark :: insertMarks offset marks (c :: cs)
    else c :: insertMarks (offset + c.utf8Size) (mark :: marks) cs

/-- Read a text with marks. -/
def ofMarked (text : String) : Example where
  text := String.ofList (unmarked text.toList)
  offsets := markOffsets 0 text.toList

/-- The text with a mark at each offset. -/
def marked (e : Example) : String := String.ofList (insertMarks 0 e.offsets e.text.toList)

end Example

/-- A source text with marks, and the text that the edits of the marked violations turn it into. -/
structure CorrectionExample where
  before : Example
  expected : String
deriving DecidableEq, Repr

end SourceLint
