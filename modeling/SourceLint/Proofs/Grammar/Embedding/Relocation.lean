import SourceLint.Grammar.Cursor
import SourceLint.Syntax.Node

/-!
# Forests at other places

A piece of a text may turn up in another text, where its places are other ones and blanks in it may be
others. A relocation says which; with it the forest of the one text becomes the forest of the other.
-/

namespace SourceLint

/-- Where the places of a text are in another text, and what becomes of its pieces. Only blanks may come
and go in them. -/
structure Relocation where
  offset : Nat → Nat
  text : String → String
  monotone : ∀ ⦃m n : Nat⦄, m ≤ n → offset m ≤ offset n
  filter_text : ∀ piece, (text piece).toList.filter (fun c => !isBlank c) =
    piece.toList.filter fun c => !isBlank c
  text_eq : ∀ piece : String, (∀ c ∈ piece.toList, isBlank c = false) → text piece = piece

namespace Relocation

variable (r : Relocation)

/-- Where the span is in the other text. -/
def span (span : Span) : Span := .ofBounds (r.offset span.location) (r.offset span.stop)

def element (part : Element) : Element := { part with span := r.span part.span }

def modifier (part : Attribute) : Attribute := { part with span := r.span part.span }

mutual

/-- The tree in the other text. -/
def node : Node → Node
  | ⟨kind, span, name, nameSpan, body, elements, attributes, children⟩ =>
    { kind, span := r.span span, name := name.map r.text, nameSpan := nameSpan.map r.span
      body := body.map r.span, elements := elements.map r.element
      attributes := attributes.map r.modifier, children := nodes children }

/-- The forest in the other text. -/
def nodes : List Node → List Node
  | [] => []
  | tree :: trees => node tree :: nodes trees

end

/-! ### Spans -/

@[simp] theorem location_span (span : Span) : (r.span span).location = r.offset span.location := rfl

@[simp] theorem stop_span (span : Span) : (r.span span).stop = r.offset span.stop :=
  Span.stop_ofBounds (r.monotone (Nat.le_add_right _ _))

@[simp] theorem span_ofBounds (start stop : Nat) :
    r.span (.ofBounds start stop) = .ofBounds (r.offset start) (r.offset stop) := by
  rcases Nat.le_total start stop with h | h
  · rw [Relocation.span, Span.stop_ofBounds h, Span.location_ofBounds]
  · have hempty : stop - start = 0 := Nat.sub_eq_zero_of_le h
    have hmapped := r.monotone h
    simp only [Relocation.span, Span.ofBounds, Span.stop, hempty, Nat.add_zero, Nat.sub_self,
      Nat.sub_eq_zero_of_le hmapped]

/-! ### Nodes -/

@[simp] theorem nodes_nil : r.nodes [] = [] := by rw [nodes]

@[simp] theorem nodes_cons (tree : Node) (trees : List Node) :
    r.nodes (tree :: trees) = r.node tree :: r.nodes trees := by rw [nodes]

theorem nodes_eq_map (forest : List Node) : r.nodes forest = forest.map r.node := by
  induction forest with
  | nil => rw [nodes_nil, List.map_nil]
  | cons tree trees ih => rw [nodes_cons, ih, List.map_cons]

@[simp] theorem nodes_append (forest more : List Node) :
    r.nodes (forest ++ more) = r.nodes forest ++ r.nodes more := by
  simp only [nodes_eq_map, List.map_append]

theorem node_eq (tree : Node) : r.node tree =
    { kind := tree.kind, span := r.span tree.span, name := tree.name.map r.text
      nameSpan := tree.nameSpan.map r.span, body := tree.body.map r.span
      elements := tree.elements.map r.element, attributes := tree.attributes.map r.modifier
      children := r.nodes tree.children } := by
  cases tree
  rw [node]

@[simp] theorem kind_node (tree : Node) : (r.node tree).kind = tree.kind := by rw [node_eq]

@[simp] theorem span_node (tree : Node) : (r.node tree).span = r.span tree.span := by rw [node_eq]

@[simp] theorem body_node (tree : Node) : (r.node tree).body = tree.body.map r.span := by
  rw [node_eq]

@[simp] theorem children_node (tree : Node) : (r.node tree).children = r.nodes tree.children := by
  rw [node_eq]

/-! ### Texts behind other bytes -/

/-- Some bytes come before the text. -/
def shift (more : Nat) : Relocation where
  offset n := more + n
  text piece := piece
  monotone _ _ h := Nat.add_le_add_left h more
  filter_text _ := rfl
  text_eq _ _ := rfl

theorem span_shift_zero : (shift 0).span = id := by
  funext span
  have hstart : (shift 0).offset span.location = span.location := Nat.zero_add _
  have hstop : (shift 0).offset span.stop = span.stop := Nat.zero_add _
  have hlength : span.stop - span.location = span.length := Nat.add_sub_cancel_left _ _
  rw [Relocation.span, hstart, hstop, Span.ofBounds, hlength, id]

theorem element_shift_zero : (shift 0).element = id := by
  funext part
  exact congrArg (Element.mk part.kind) (congrFun span_shift_zero part.span)

theorem modifier_shift_zero : (shift 0).modifier = id := by
  funext part
  exact congrArg (Attribute.mk part.kind) (congrFun span_shift_zero part.span)

mutual

theorem node_shift_zero : ∀ tree : Node, (shift 0).node tree = tree
  | ⟨kind, span, name, nameSpan, body, elements, attributes, children⟩ => by
    have htext : (shift 0).text = id := rfl
    simp only [node, span_shift_zero, htext, element_shift_zero, modifier_shift_zero,
      nodes_shift_zero children, Option.map_id, List.map_id, id_eq]

/-- Without further bytes nothing moves. -/
theorem nodes_shift_zero : ∀ forest : List Node, (shift 0).nodes forest = forest
  | [] => nodes_nil _
  | tree :: trees => by rw [nodes_cons, node_shift_zero tree, nodes_shift_zero trees]

end

/-! ### Names -/

/-- A text without blanks stays as it is. -/
theorem text_ofList_filter (cs : List Char) :
    r.text (String.ofList (cs.filter fun c => !isBlank c)) =
      String.ofList (cs.filter fun c => !isBlank c) := by
  refine r.text_eq _ fun c hc => ?_
  rw [String.toList_ofList, List.mem_filter, Bool.not_eq_true'] at hc
  exact hc.2

end Relocation

end SourceLint
