import SourceLint.Directive
import SourceLint.LineIndex
import SourceLint.Syntax.Token

/-!
# Which rules are off on which lines

The directives of a source text are collected once. A directive on a region changes what is off from
the line behind its own on; the states are kept with the lines from which they hold, so the state of
a line is found by binary search. Directives on single lines are kept by line.
-/

namespace SourceLint

/-- Which rules are off in a region: all but some exceptions, or just some. -/
structure RegionState where
  allDisabled : Bool := false
  /-- The rules that are off while not all are. -/
  disabled : List String := []
  /-- The rules that are on while all others are off. -/
  enabled : List String := []
deriving DecidableEq, Repr, Inhabited

namespace RegionState

def isDisabled (state : RegionState) (rule : String) : Bool :=
  if state.allDisabled then !state.enabled.contains rule else state.disabled.contains rule

/-- Turn one rule off. -/
def disable (state : RegionState) (rule : String) : RegionState :=
  if state.allDisabled then { state with enabled := state.enabled.filter (· != rule) }
  else { state with disabled := state.disabled.insert rule }

/-- Turn one rule on. -/
def enable (state : RegionState) (rule : String) : RegionState :=
  if state.allDisabled then { state with enabled := state.enabled.insert rule }
  else { state with disabled := state.disabled.filter (· != rule) }

/-- The state behind a directive. A directive on a single line changes nothing. -/
def apply (state : RegionState) (directive : Directive) : RegionState :=
  match directive.action, directive.rules with
  | .disable, [] => { allDisabled := true }
  | .enable, [] => {}
  | .disable, rules => rules.foldl disable state
  | .enable, rules => rules.foldl enable state
  | .disableLine _, _ => state

end RegionState

/-- The directives of one source text, collected. -/
structure Suppression where
  /-- The states of the regions with the lines from which they hold, in ascending order. -/
  regions : Array (Nat × RegionState) := #[]
  /-- The rules that are off on single lines. The name `*` stands for all rules. -/
  singleLines : List (Nat × List String) := []
deriving Repr, Inhabited

namespace Suppression

/-- The state behind all directives so far. -/
def current (s : Suppression) : RegionState := (s.regions.back?.map Prod.snd).getD {}

/-- Let a state hold from a line on. It replaces a state that holds from the same line. -/
def setState (s : Suppression) (line : Nat) (state : RegionState) : Suppression :=
  match s.regions.back? with
  | some (start, _) =>
    if start = line then { s with regions := s.regions.pop.push (line, state) }
    else { s with regions := s.regions.push (line, state) }
  | none => { s with regions := s.regions.push (line, state) }

/-- Turn rules off on one line; no rules stand for all rules. -/
def disableLine (s : Suppression) (line : Nat) (rules : List String) : Suppression :=
  { s with singleLines := (line, if rules.isEmpty then ["*"] else rules) :: s.singleLines }

/-- Take in a directive that stands on a line. -/
def add (s : Suppression) (line : Nat) (directive : Directive) : Suppression :=
  match directive.action with
  | .disableLine target =>
    match target.line? line with
    | some line => s.disableLine line directive.rules
    | none => s
  | _ => s.setState (line + 1) (s.current.apply directive)

/-- The directives of the comments among some tokens, with their lines. -/
def directives (source : String) (tokens : TokenStream) (lines : LineIndex) :
    List (Nat × Directive) :=
  (tokens.toList.filter fun token => token.kind == .comment).flatMap fun token =>
    match token.text? source with
    | some comment => (Directive.ofComment comment).map fun (offset, directive) =>
        (lines.lineOf (token.span.location + offset), directive)
    | none => []

/-- Collect the directives of a source text. -/
def ofTokens (source : String) (tokens : TokenStream) (lines : LineIndex) : Suppression :=
  (directives source tokens lines).foldl (fun s (line, directive) => s.add line directive) {}

/-- No directive is there. -/
def isEmpty (s : Suppression) : Bool := s.regions.isEmpty && s.singleLines.isEmpty

/-- A directive on a single line turns the rule off on this line. -/
def isLineDisabled (s : Suppression) (rule : String) (line : Nat) : Bool :=
  s.singleLines.any fun (target, rules) =>
    target == line && (rules.contains "*" || rules.contains rule)

/-- The state of the region that a line lies in. -/
def regionAt (s : Suppression) (line : Nat) : RegionState :=
  match partitionPoint s.regions fun region => region.1 ≤ line with
  | 0 => {}
  | count + 1 => (s.regions[count]?.map Prod.snd).getD {}

/-- The rule is off on the line. -/
def isDisabled (s : Suppression) (rule : String) (line : Nat) : Bool :=
  s.isLineDisabled rule line || (s.regionAt line).isDisabled rule

end Suppression

end SourceLint
