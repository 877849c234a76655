import SourceLint.Syntax.Error
import SourceLint.Syntax.Token
import SourceLint.Syntax.Traversal

/-!
# Snapshots of a source text

A snapshot is what rules know of a source text beside its characters: the forest of its constructs
and its tokens. Rules rely on an order: tokens are not empty and come one after the other, a node
lies within its parent, and siblings come one after the other. `Snapshot.assemble` refuses anything
else and says what is wrong first.
-/

namespace SourceLint

/-- The tokens from number `index` on are not empty, begin at `least` or later, come one after the
other and end within the source. -/
def checkTokens (sourceLength : Nat) (index least : Nat) : List Token → Except StructureFault Unit
  | [] => .ok ()
  | token :: tokens =>
    let span := token.span
    if span.isEmpty then .error (.emptyToken index)
    else if span.location < least then .error (.tokenBeforePrevious index span)
    else if sourceLength < span.stop then .error (.tokenPastEnd index span sourceLength)
    else checkTokens sourceLength (index + 1) span.stop tokens

namespace Node

mutual

/-- The node lies within the span of its parent, and its children are in order. -/
def checkWithin (parent : Span) (path : List Nat) : Node → Except StructureFault Unit
  | ⟨kind, span, _, _, _, _, _, children⟩ =>
    if parent.covers span then checkSiblings span path 0 span.location children
    else .error (.nodeOutsideParent path kind span parent)

/-- The nodes from number `index` on begin at `least` or later, come one after the other and lie
within the span of their parent. -/
def checkSiblings (parent : Span) (path : List Nat) (index least : Nat) :
    List Node → Except StructureFault Unit
  | [] => .ok ()
  | node :: nodes =>
    if node.span.location < least then
      .error (.nodeBeforePrevious (path ++ [index]) node.kind node.span)
    else
      match checkWithin parent (path ++ [index]) node with
      | .error fault => .error fault
      | .ok () => checkSiblings parent path (index + 1) node.span.stop nodes

end

end Node

/-- The constructs and the tokens of one source text. -/
structure Snapshot where
  forest : List Node
  tokens : TokenStream
deriving Repr, Inhabited

namespace Snapshot

/-- The snapshot with the given parts, if they are in order and lie within a source of the given
length. -/
def assemble (forest : List Node) (tokens : TokenStream) (sourceLength : Nat) :
    Except SyntaxError Snapshot :=
  match checkTokens sourceLength 0 0 tokens.toList,
    Node.checkSiblings ⟨0, sourceLength⟩ [] 0 0 forest with
  | .ok (), .ok () => .ok ⟨forest, tokens⟩
  | .error fault, _ | .ok (), .error fault => .error (.malformed fault)

end Snapshot

end SourceLint
