import SourceLint.Correction.Corrector
import SourceLint.Syntax.Snapshot
import SourceLint.Rule.Basic
import SourceLint.Text.Quoted

/-!
# Rules against their own examples

The examples in the description of a rule are tests. A rule must report nothing on the examples that
do not trigger it and the marked places on those that do. Correcting an example must yield the expected
text, on which the rule then reports nothing.
-/

namespace SourceLint

/-- How a rule fails one of its examples. -/
inductive ExampleFailure where
  | unreadable (rule text : String) (error : SyntaxError)
  | offsets (rule text : String) (expected actual : List Nat)
  | correction (rule expected actual : String)
  | notConverged (rule corrected : String) (found : List Nat)
deriving DecidableEq, Repr

/-- A list of offsets as messages write it. -/
def offsetsText (offsets : List Nat) : String :=
  "[" ++ ", ".intercalate (offsets.map toString) ++ "]"

def ExampleFailure.message : ExampleFailure → String
  | unreadable rule text error => rule ++ ": example does not parse (" ++ error.message ++ "):\n" ++ text
  | offsets rule text expected actual =>
    rule ++ ": expected violations at " ++ offsetsText expected ++ ", found " ++ offsetsText actual ++
      ":\n" ++ text
  | correction rule expected actual =>
    rule ++ ": correction produced " ++ quoted actual ++ ", expected " ++ quoted expected
  | notConverged rule corrected found =>
    rule ++ ": corrected text still has violations at " ++ offsetsText found ++ ":\n" ++ corrected

namespace Rule

/-- What the rule reports on a text, or why the text cannot be read. -/
def validateText (rule : Rule) (provider : String → Except SyntaxError Snapshot) (text : String) :
    Except ExampleFailure (List Violation) :=
  match provider text with
  | .ok snapshot => .ok (rule.validateSorted { source := text, snapshot := snapshot })
  | .error error => .error (.unreadable rule.identifier text error)

/-- The failure of a rule that reports other offsets on an example than those marked. -/
def offsetFailures (rule : Rule) (e : Example) (violations : List Violation) :
    List ExampleFailure :=
  let actual := violations.map Violation.offset
  if actual = e.offsets then [] else [.offsets rule.identifier e.text e.offsets actual]

/-- How the rule fails an example. -/
def checkExample (rule : Rule) (provider : String → Except SyntaxError Snapshot) (e : Example) :
    List ExampleFailure :=
  match rule.validateText provider e.text with
  | .ok violations => rule.offsetFailures e violations
  | .error failure => [failure]

/-- How the rule fails on the text that its corrections yield. -/
def checkCorrected (rule : Rule) (provider : String → Except SyntaxError Snapshot)
    (corrected : String) : List ExampleFailure :=
  match rule.validateText provider corrected with
  | .ok [] => []
  | .ok remaining => [.notConverged rule.identifier corrected (remaining.map Violation.offset)]
  | .error failure => [failure]

/-- How the rule fails an example of a correction. -/
def checkCorrection (rule : Rule) (provider : String → Except SyntaxError Snapshot)
    (e : CorrectionExample) : List ExampleFailure :=
  match rule.validateText provider e.before.text with
  | .ok violations =>
    let corrected := (Corrector.apply {} e.before.text violations).content
    let wrongText :=
      if corrected = e.expected then [] else [.correction rule.identifier e.expected corrected]
    rule.offsetFailures e.before violations ++ wrongText ++ rule.checkCorrected provider corrected
  | .error failure => [failure]

/-- All failures of the rule on its own examples, in their order. -/
def verify (rule : Rule) (provider : String → Except SyntaxError Snapshot) :
    List ExampleFailure :=
  (rule.description.nonTriggering ++ rule.description.triggering).flatMap
      (rule.checkExample provider) ++
    rule.description.corrections.flatMap (rule.checkCorrection provider)

end Rule

end SourceLint
