import SourceLint.Syntax.Node

/-!
# Faults of a source text and of its structure

Reading a source text fails with a cause and the place of that cause. A structure that somebody
else has built fails when its tokens or nodes are out of order. The wording of all these faults is
here.
-/

namespace SourceLint

/-- What would have been accepted at a place. -/
inductive Expectation where
  | openingBrace
  | colon
  | keyword (word : String)
  | caseOrDefault
  | variableName
  | functionName
  | typeName
  | bindingName
  | expression
  | sequenceExpression
  | condition
  | switchSubject
deriving DecidableEq, Repr

def Expectation.text : Expectation → String
  | openingBrace => "'\x7b'"
  | colon => "':'"
  | keyword word => "'" ++ word ++ "'"
  | caseOrDefault => "'case' or 'default'"
  | variableName => "variable name"
  | functionName => "function name"
  | typeName => "type name"
  | bindingName => "binding name"
  | expression => "expression"
  | sequenceExpression => "sequence expression"
  | condition => "condition"
  | switchSubject => "switch subject"

/-- How the parts of a structure are out of order. A node is named by its path, the positions among
siblings that lead to it from the roots. -/
inductive StructureFault where
  | emptyToken (index : Nat)
  | tokenBeforePrevious (index : Nat) (span : Span)
  | tokenPastEnd (index : Nat) (span : Span) (sourceLength : Nat)
  | nodeBeforePrevious (path : List Nat) (kind : NodeKind) (span : Span)
  | nodeOutsideParent (path : List Nat) (kind : NodeKind) (span parent : Span)
deriving DecidableEq, Repr

/-- A path with a slash before each position. -/
def pathText (path : List Nat) : String :=
  String.join (path.map fun position => "/" ++ toString position)

def StructureFault.message : StructureFault → String
  | emptyToken index => s!"token {index} is empty"
  | tokenBeforePrevious index span =>
    s!"token {index} at {span} overlaps or precedes the previous token"
  | tokenPastEnd index span sourceLength =>
    s!"token {index} at {span} exceeds source length {sourceLength}"
  | nodeBeforePrevious path kind span =>
    s!"{pathText path}: {kind.name} at {span} overlaps its previous sibling"
  | nodeOutsideParent path kind span parent =>
    s!"{pathText path}: {kind.name} at {span} escapes its parent {parent}"

/-- Why a source text has no structure. -/
inductive SyntaxError where
  | unterminatedString (offset : Nat)
  | unterminatedComment (offset : Nat)
  | unclosed (delimiter : Char) (offset : Nat)
  | unexpected (found : String) (offset : Nat)
  | expected (what : Expectation) (offset : Nat)
  | malformed (fault : StructureFault)
deriving DecidableEq, Repr

def SyntaxError.message : SyntaxError → String
  | unterminatedString offset => s!"unterminated string literal starting at byte {offset}"
  | unterminatedComment offset => s!"unterminated block comment starting at byte {offset}"
  | unclosed delimiter offset => s!"unclosed '{delimiter}' opened at byte {offset}"
  | unexpected found offset => s!"unexpected '{found}' at byte {offset}"
  | expected what offset => s!"expected {what.text} at byte {offset}"
  | malformed fault => "malformed syntax snapshot: " ++ fault.message

end SourceLint
