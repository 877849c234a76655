import SourceLint.Syntax.Node

/-!
# Outlines

The outline of a forest has the kinds of its nodes in their nesting and their order, and nothing else: no
spans, no names and no attributes.
-/

namespace SourceLint

/-- The kind of a construct and the outlines of the constructs inside it. -/
inductive Outline where
  | construct (kind : NodeKind) (parts : List Outline)
deriving Repr

namespace Node

mutual

/-- The outline of a tree. -/
def outline : Node → Outline
  | ⟨kind, _, _, _, _, _, _, children⟩ => .construct kind (outlines children)

/-- The outlines of the trees of a forest. -/
def outlines : List Node → List Outline
  | [] => []
  | node :: nodes => outline node :: outlines nodes

end

theorem outlines_eq_map (nodes : List Node) : outlines nodes = nodes.map outline := by
  induction nodes with
  | nil => rw [outlines, List.map_nil]
  | cons node nodes ih => rw [outlines, ih, List.map_cons]

theorem outline_eq (node : Node) : node.outline = .construct node.kind (node.children.map outline) := by
  cases node
  rw [outline, outlines_eq_map]

/-- The two forests have the same outline. -/
def SameOutline (nodes others : List Node) : Prop := others.map outline = nodes.map outline

namespace SameOutline

variable {nodes others more moreOthers : List Node} {node other : Node}

theorem nil : SameOutline [] [] := rfl

theorem append (h : SameOutline nodes others) (hmore : SameOutline more moreOthers) :
    SameOutline (nodes ++ more) (others ++ moreOthers) := by
  rw [SameOutline, List.map_append, List.map_append, h, hmore]

/-- Nodes of the same kind around forests with the same outline. -/
theorem singleton (hkind : other.kind = node.kind) (h : SameOutline node.children other.children) :
    SameOutline [node] [other] := by
  rw [SameOutline, List.map_singleton, List.map_singleton, outline_eq, outline_eq, hkind, h]

theorem of_singleton (h : SameOutline [node] [other]) :
    other.kind = node.kind ∧ SameOutline node.children other.children := by
  rw [SameOutline, List.map_singleton, List.map_singleton, outline_eq, outline_eq] at h
  injection List.cons.inj h |>.1 with hkind hparts
  exact ⟨hkind, hparts⟩

/-- The last nodes have the same outline, and so have the nodes before them. -/
theorem of_concat (h : SameOutline (nodes ++ [node]) (others ++ [other])) :
    SameOutline nodes others ∧ SameOutline [node] [other] := by
  rw [SameOutline, List.map_append, List.map_append] at h
  exact List.append_inj' h rfl

theorem length_eq (h : SameOutline nodes others) : others.length = nodes.length := by
  simpa using congrArg List.length h

/-- Either both forests are empty, or both have a last node. -/
theorem eq_nil_or_concat (h : SameOutline nodes others) :
    (nodes = [] ∧ others = []) ∨
      ∃ before node before' node', nodes = before ++ [node] ∧ others = before' ++ [node'] := by
  rcases List.eq_nil_or_concat nodes with rfl | ⟨before, node, rfl⟩
  · exact .inl ⟨rfl, List.length_eq_zero_iff.1 h.length_eq⟩
  · rcases List.eq_nil_or_concat others with rfl | ⟨before', node', rfl⟩
    · simpa using h.length_eq
    · exact .inr ⟨before, node, before', node', List.concat_eq_append, List.concat_eq_append⟩

end SameOutline

end Node

end SourceLint
