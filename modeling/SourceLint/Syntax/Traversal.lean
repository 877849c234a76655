import SourceLint.Syntax.Node

/-!
# Walks through a forest

Two walks visit every node of a forest once. `preOrder` keeps the pending nodes on a stack and
visits a node before its children; `breadthFirst` keeps them in a queue and visits the levels of
the forest from the roots down. `pop?` and `dequeue?` are the single steps of the two walks. Beside
each walk stands the list that it yields, by recursion on the trees: `listing` and `levels`.
-/

namespace SourceLint.Node

/-- Visit the pending nodes from the top of the stack, each before its children. -/
def preOrder : List Node → List Node
  | [] => []
  | node :: pending => node :: preOrder (node.children ++ pending)
termination_by pending => countAll pending
decreasing_by simp only [countAll_append, countAll_cons, count_eq]; omega

/-- Visit the pending nodes from the front of the queue and put their children at its end. -/
def breadthFirst : List Node → List Node
  | [] => []
  | node :: pending => node :: breadthFirst (pending ++ node.children)
termination_by pending => countAll pending
decreasing_by simp only [countAll_append, countAll_cons, count_eq]; omega

/-- Visit the node on top of the stack, and push its children, the last one first. There is no step
when the stack is empty. -/
def pop? : List Node → Option (Node × List Node)
  | [] => none
  | node :: stack =>
    some (node, node.children.reverse.foldl (fun stack child => child :: stack) stack)

/-- Visit the node at the front of the queue, and put its children at the end. There is no step when
the queue is empty. -/
def dequeue? : List Node → Option (Node × List Node)
  | [] => none
  | node :: queue => some (node, queue ++ node.children)

mutual

/-- A node, followed by the listings of its children. -/
def listing : Node → List Node
  | ⟨kind, span, name, nameSpan, body, elements, attributes, children⟩ =>
    ⟨kind, span, name, nameSpan, body, elements, attributes, children⟩ :: listingAll children

/-- The listings of the trees of a forest. -/
def listingAll : List Node → List Node
  | [] => []
  | node :: nodes => listing node ++ listingAll nodes

end

theorem countAll_flatMap_children (forest : List Node) :
    countAll (forest.flatMap children) + forest.length = countAll forest := by
  induction forest with
  | nil => simp
  | cons node nodes ih =>
    simp only [List.flatMap_cons, countAll_append, countAll_cons, count_eq, List.length_cons]
    omega

/-- The roots of a forest, followed by the nodes one level below them, and so on. -/
def levels : List Node → List Node
  | [] => []
  | node :: nodes => node :: nodes ++ levels ((node :: nodes).flatMap children)
termination_by forest => countAll forest
decreasing_by
  have := countAll_flatMap_children (node :: nodes)
  simp only [List.length_cons] at this
  omega

theorem listing_eq (node : Node) : node.listing = node :: listingAll node.children := by
  cases node; rw [listing]

@[simp] theorem listingAll_nil : listingAll [] = [] := by rw [listingAll]

@[simp] theorem listingAll_cons (node : Node) (nodes : List Node) :
    listingAll (node :: nodes) = node.listing ++ listingAll nodes := by rw [listingAll]

end SourceLint.Node
