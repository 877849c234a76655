import SourceLint.Config.Options
import SourceLint.Context
import SourceLint.Example
import SourceLint.Sorting
import SourceLint.Violation

/-!
# Rules

A rule looks at a source text and reports violations. It looks either at the whole file at once or at
each construct of certain kinds, and it comes with a description whose examples say what it reports.
-/

namespace SourceLint

/-- The groups in which rules are listed. -/
inductive Category where
  | lint
  | idiomatic
  | style
  | metrics
deriving DecidableEq, Repr

def Category.name : Category → String
  | lint => "lint"
  | idiomatic => "idiomatic"
  | style => "style"
  | metrics => "metrics"

/-- What is fixed about a rule, whatever its options. A rule that is opt-in runs only on demand. -/
structure Description where
  identifier : String
  name : String
  explanation : String
  category : Category
  minimumVersion : Option LanguageVersion := none
  isOptIn : Bool := false
  nonTriggering : List Example := []
  triggering : List Example := []
  corrections : List CorrectionExample := []
deriving Repr

/-- How a rule looks at a source text. -/
inductive Check where
  /-- Once, at the whole file. -/
  | file (run : Context → List Violation)
  /-- At each construct of one of the kinds. -/
  | nodes (kinds : List NodeKind) (run : Context → Node → List Violation)

/-- A rule with its options in place. -/
structure Rule where
  description : Description
  check : Check
  severity : Severity := .warning
  isCorrectable : Bool := false
  /-- The section of a configuration document with the default options of the rule. -/
  defaultSection : Option (String × Toml.Value) := none

namespace Rule

/-- The name of a rule in configurations and directives. -/
def identifier (rule : Rule) : String := rule.description.identifier

/-- What the rule reports on a whole file. -/
def fileViolations (rule : Rule) (context : Context) : List Violation :=
  match rule.check with
  | .file run => run context
  | .nodes _ _ => []

/-- What the rule reports on one construct. -/
def nodeViolations (rule : Rule) (context : Context) (node : Node) : List Violation :=
  match rule.check with
  | .file _ => []
  | .nodes _ run => run context node

/-- What the rule reports on a source text when it runs alone and directives do not count. -/
def validate (rule : Rule) (context : Context) : List Violation :=
  match rule.check with
  | .file run => run context
  | .nodes kinds run =>
    ((Node.preOrder context.snapshot.forest).filter fun node => kinds.contains node.kind).flatMap
      (run context)

/-- The violations of a rule in ascending order of their offsets; those at one offset keep their
order. -/
def validateSorted (rule : Rule) (context : Context) : List Violation :=
  sortBy Violation.offset (rule.validate context)

end Rule

end SourceLint
