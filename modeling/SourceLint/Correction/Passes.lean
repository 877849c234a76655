import SourceLint.Correction.Corrector
import SourceLint.Linter

/-!
# Correcting until nothing changes

Applying corrections can make room for others. A corrected text is linted and corrected again, until no
violation is left whose correction may be applied, or a pass changes nothing, or the passes run out.
-/

namespace SourceLint

/-- What came of several passes of correction. Only passes that changed the text count. -/
structure CorrectedText where
  content : String
  applied : SortedTable Nat := []
  skipped : Nat := 0
  passes : Nat := 0
deriving DecidableEq, Repr

namespace CorrectedText

/-- Count a pass that came before. -/
def behind (later : CorrectedText) (first : CorrectionOutcome) : CorrectedText where
  content := later.content
  applied := SortedTable.addCounts first.applied later.applied
  skipped := first.skipped + later.skipped
  passes := later.passes + 1

/-- What there is to say when the passes ran out. -/
def warning? (result : CorrectedText) (limit : Nat) : Option String :=
  if result.passes = limit ∧ 0 < limit then
    some s!"Corrections did not settle after {limit} passes"
  else none

end CorrectedText

namespace Corrector

/-- Lint a source text once and apply the corrections. -/
def pass (corrector : Corrector) (linter : Linter) (source : String) :
    Except SyntaxError (List Violation × CorrectionOutcome) :=
  (linter.lint source).map fun violations => (violations, corrector.apply source violations)

/-- The passes over a source text, each over what the one before it has left. A text that cannot be
read ends them. -/
def passes (corrector : Corrector) (linter : Linter) :
    Nat → String → List (Except SyntaxError (List Violation × CorrectionOutcome))
  | 0, _ => []
  | count + 1, source =>
    match corrector.pass linter source with
    | .ok (violations, outcome) =>
      .ok (violations, outcome) :: passes corrector linter count outcome.content
    | .error error => [.error error]

/-- Correct a source text, with a limit on the number of passes. Without a correction to apply a pass
changes nothing, and then there is no other one. -/
def correct (corrector : Corrector) (linter : Linter) :
    Nat → String → Except SyntaxError CorrectedText
  | 0, source => .ok { content := source }
  | limit + 1, source => do
    let (_, outcome) ← corrector.pass linter source
    if outcome.content = source then return { content := source }
    else
      let later ← correct corrector linter limit outcome.content
      return later.behind outcome

end Corrector

end SourceLint
