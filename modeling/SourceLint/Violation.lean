import SourceLint.Severity
import SourceLint.Span

/-!
# Violations

What rules report: a place in a source text, why it is wrong, and sometimes the edit that mends it.
-/

namespace SourceLint

/-- An edit of a source text: the text under a span gives way to another text. -/
structure Correction where
  span : Span
  replacement : String
deriving DecidableEq, Repr

/-- The edit that removes the text under a span. -/
def Correction.deletion (span : Span) : Correction := ⟨span, ""⟩

/-- What a rule found at an offset of a source text. -/
structure Violation where
  rule : String
  severity : Severity
  offset : Nat
  reason : String
  correction : Option Correction := none
deriving DecidableEq, Repr

/-- The violation carries an edit. -/
def Violation.isCorrectable (violation : Violation) : Bool := violation.correction.isSome

end SourceLint
