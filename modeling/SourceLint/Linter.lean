import SourceLint.Grammar.Source
import SourceLint.Rule.Basic
import SourceLint.Suppression

/-!
# Linting one source text

A linter runs its rules over a source text: first the rules that look at the whole file, and then, node
by node in pre-order, the rules that look at constructs. Which rules look at which kind of construct is
sorted out once before the walk. What the directives of the source turn off is dropped at the end.
-/

namespace SourceLint

/-- Entries under kinds of constructs. A kind that is missing has no entries. -/
abbrev KindTable (α : Type) := List (NodeKind × List α)

namespace KindTable

variable {α : Type}

/-- The table with an entry behind those under a kind. -/
def push (kind : NodeKind) (entry : α) : KindTable α → KindTable α
  | [] => [(kind, [entry])]
  | (k, entries) :: table =>
    if k = kind then (k, entries ++ [entry]) :: table else (k, entries) :: push kind entry table

/-- The entries under a kind. -/
def entries (table : KindTable α) (kind : NodeKind) : List α := (table.lookup kind).getD []

end KindTable

/-- The numbers of some rules, sorted by what the rules look at; each list is in the order of the
rules. -/
structure Dispatch (rules : List Rule) where
  fileRules : List (Fin rules.length) := []
  /-- The rules that look at constructs, under the kinds that they list. A rule that lists a kind twice
  is there twice. -/
  nodeRules : KindTable (Fin rules.length) := []

namespace Dispatch

variable {rules : List Rule}

/-- Sort one more rule in. -/
def add (dispatch : Dispatch rules) (index : Fin rules.length) : Dispatch rules :=
  match (rules.get index).check with
  | .file _ => { dispatch with fileRules := dispatch.fileRules ++ [index] }
  | .nodes kinds _ =>
    { dispatch with
      nodeRules := kinds.foldl (fun table kind => table.push kind index) dispatch.nodeRules }

def ofRules (rules : List Rule) : Dispatch rules := (List.finRange rules.length).foldl add {}

/-- What the rules on whole files report. -/
def runFile (dispatch : Dispatch rules) (context : Context) : List Violation :=
  dispatch.fileRules.flatMap fun index => (rules.get index).fileViolations context

/-- What the rules on constructs report on one node. -/
def runNode (dispatch : Dispatch rules) (context : Context) (node : Node) : List Violation :=
  (dispatch.nodeRules.entries node.kind).flatMap fun index =>
    (rules.get index).nodeViolations context node

end Dispatch

/-- Some rules in the order in which they run, and how source texts are read. -/
structure Linter where
  rules : List Rule
  provider : String → Except SyntaxError Snapshot := Snapshot.ofSource
  languageVersion : LanguageVersion := .standard

namespace Linter

def context (linter : Linter) (source : String) (snapshot : Snapshot) : Context where
  source := source
  snapshot := snapshot
  languageVersion := linter.languageVersion

/-- The violations that directives do not turn off. -/
def withoutSuppressed (context : Context) (violations : List Violation) : List Violation :=
  let suppression := Suppression.ofTokens context.source context.snapshot.tokens context.lines
  if suppression.isEmpty then violations
  else violations.filter fun v => !suppression.isDisabled v.rule (context.lines.lineOf v.offset)

/-- What the rules report on a source text with the given snapshot. -/
def lintSnapshot (linter : Linter) (source : String) (snapshot : Snapshot) : List Violation :=
  let context := linter.context source snapshot
  let dispatch := Dispatch.ofRules linter.rules
  withoutSuppressed context <|
    dispatch.runFile context ++
      (Node.preOrder snapshot.forest).flatMap (dispatch.runNode context)

/-- What the rules report on a source text. -/
def lint (linter : Linter) (source : String) : Except SyntaxError (List Violation) :=
  (linter.provider source).map (linter.lintSnapshot source)

end Linter

/-- The message of a linter about a source text that it cannot read. -/
def SyntaxError.lintMessage (e : SyntaxError) : String := "Parsing error: " ++ e.message

end SourceLint
