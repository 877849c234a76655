import SourceLint.Correction.Edit
import SourceLint.SortedTable
import SourceLint.Sorting

/-!
# Applying corrections

Of the corrections that some violations carry, as many are applied as do not get in each other's way.
They are looked at in the order of their locations: one is accepted if it can be made, if no accepted
one starts at the same place, and if no accepted one meets it. The others are skipped.
-/

namespace SourceLint

/-- A correction with the rule that asks for it. -/
structure Proposal where
  rule : String
  correction : Correction
deriving DecidableEq, Repr

namespace Proposal

def span (p : Proposal) : Span := p.correction.span

/-- Only one of the two can be accepted. -/
def conflicts (p q : Proposal) : Bool :=
  p.span.location == q.span.location || p.span.intersects q.span

end Proposal

/-- Some proposals sorted out: those accepted, the last one first, and how many are skipped. -/
structure Acceptance where
  accepted : List Proposal := []
  skipped : Nat := 0
deriving DecidableEq, Repr

namespace Acceptance

/-- Accept the next proposal or skip it. -/
def add (source : List Char) (a : Acceptance) (p : Proposal) : Acceptance :=
  if (p.span.chars? source).isSome && !a.accepted.any fun q => q.conflicts p then
    { a with accepted := p :: a.accepted }
  else { a with skipped := a.skipped + 1 }

/-- Sort out some proposals, the first come first. -/
def ofProposals (source : List Char) (proposals : List Proposal) : Acceptance :=
  proposals.foldl (add source) {}

/-- How many proposals are accepted for each rule. -/
def counts (a : Acceptance) : SortedTable Nat :=
  a.accepted.foldl (fun counts p => SortedTable.addCount p.rule 1 counts) []

end Acceptance

/-- What came of applying corrections: the new text, how many were applied for each rule, and how
many were skipped. -/
structure CorrectionOutcome where
  content : String
  applied : SortedTable Nat
  skipped : Nat
deriving DecidableEq, Repr

/-- How many corrections were applied in all. -/
def CorrectionOutcome.totalApplied (outcome : CorrectionOutcome) : Nat :=
  SortedTable.total outcome.applied

/-- Applies corrections, but never those of some rules. -/
structure Corrector where
  unfixable : List String := []
deriving DecidableEq, Repr

namespace Corrector

/-- Corrections of the rule may be applied. -/
def isFixable (corrector : Corrector) (rule : String) : Bool := !corrector.unfixable.contains rule

/-- The violation carries a correction that may be applied. -/
def canFix (corrector : Corrector) (v : Violation) : Bool :=
  v.isCorrectable && corrector.isFixable v.rule

/-- The correction of a violation, if it has one that may be applied. -/
def proposal? (corrector : Corrector) (v : Violation) : Option Proposal :=
  if corrector.isFixable v.rule then v.correction.map fun correction => ⟨v.rule, correction⟩
  else none

/-- The corrections that may be applied, in the order of their locations. Those at one location keep
their order. -/
def proposals (corrector : Corrector) (violations : List Violation) : List Proposal :=
  sortBy (fun p => p.span.location) (violations.filterMap corrector.proposal?)

/-- Apply the corrections of some violations to a source text. -/
def apply (corrector : Corrector) (source : String) (violations : List Violation) :
    CorrectionOutcome :=
  let chars := source.toList
  let acceptance := Acceptance.ofProposals chars (corrector.proposals violations)
  let edits := acceptance.accepted.map Proposal.correction
  { content := String.ofList ((Correction.editAll? edits chars).getD chars)
    applied := acceptance.counts
    skipped := acceptance.skipped }

end Corrector

end SourceLint
