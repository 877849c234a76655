import SourceLint.Config.Basic
import SourceLint.Text.Occurrence

/-!
# Directives in comments

A comment can turn rules off and on again with a directive: the word `sift:` with an action right
behind it, and then the names of the rules. A directive ends with its line or its comment. Without
names, or with the name `all` among them, it is about all rules.
-/

namespace SourceLint

/-- The one line that a directive is about, seen from its own line. -/
inductive Directive.Target where
  | next
  | this
  | previous
deriving DecidableEq, Repr

/-- What a directive does. -/
inductive Directive.Action where
  /-- Turn rules off from the next line on. -/
  | disable
  /-- Turn rules on again from the next line on. -/
  | enable
  /-- Turn rules off on one line. -/
  | disableLine (target : Directive.Target)
deriving DecidableEq, Repr

/-- An action and the names of the rules that it concerns; no names stand for all rules. -/
structure Directive where
  action : Directive.Action
  rules : List String
deriving DecidableEq, Repr

namespace Directive

/-- The line that a target means on a given line. No line comes before the first. -/
def Target.line? (target : Target) (line : Nat) : Option Nat :=
  match target with
  | next => some (line + 1)
  | this => some line
  | previous => if 1 < line then some (line - 1) else none

/-- How an action is written. -/
def Action.name : Action → String
  | disable => "disable"
  | enable => "enable"
  | disableLine .next => "disable:next"
  | disableLine .this => "disable:this"
  | disableLine .previous => "disable:previous"

/-- All actions. -/
def Action.all : List Action :=
  [disable, enable, disableLine .next, disableLine .this, disableLine .previous]

/-- The action with a name. -/
def Action.ofName? (name : String) : Option Action := all.find? fun action => action.name == name

@[simp] theorem Action.ofName?_name (action : Action) : ofName? action.name = some action := by
  cases action <;> try rfl
  rename_i target
  cases target <;> rfl

/-- The word that begins a directive. -/
def marker : List Char := "sift:".toList

/-- The rules that names stand for. -/
def rulesOfNames (names : List String) : List String :=
  let rules := names.map normalizeKey
  if rules.contains "all" then [] else rules

/-- The directive that the text behind a marker holds. -/
def ofText? (cs : List Char) : Option Directive :=
  match (blankSeparated (restOfRemark cs)).map String.ofList with
  | [] => none
  | word :: names => (Action.ofName? word).map fun action => ⟨action, rulesOfNames names⟩

/-- The directive whose marker stands at an offset of a comment, together with that offset. -/
def at? (comment : List Char) (offset : Nat) : Option (Nat × Directive) :=
  ((dropBytes? (offset + byteLength marker) comment).bind ofText?).map fun directive =>
    (offset, directive)

/-- The directives of a comment with the offsets of their markers. -/
def ofComment (comment : String) : List (Nat × Directive) :=
  (occurrences marker comment.toList).filterMap (at? comment.toList)

end Directive

end SourceLint
