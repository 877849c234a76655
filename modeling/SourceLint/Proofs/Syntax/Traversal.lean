import SourceLint.Syntax.Traversal

/-!
# What the walks visit

The walk on a stack yields the listing of a forest: each node comes before the nodes below it, and what is
below a node comes before its later siblings. The levels of a forest have the same nodes in another order.
-/

namespace SourceLint.Node

theorem listingAll_append (nodes more : List Node) :
    listingAll (nodes ++ more) = listingAll nodes ++ listingAll more := by
  induction nodes with
  | nil => simp
  | cons node nodes ih => simp [ih]

/-- The pending nodes of the stack are listed one after the other. -/
theorem preOrder_eq_listingAll (forest : List Node) : preOrder forest = listingAll forest := by
  fun_induction preOrder forest with
  | case1 => rw [listingAll_nil]
  | case2 node pending ih =>
      rw [ih, listingAll_append, listingAll_cons, listing_eq, List.cons_append]

theorem preOrder_cons (node : Node) (nodes : List Node) :
    preOrder (node :: nodes) = node :: (preOrder node.children ++ preOrder nodes) := by
  rw [preOrder_eq_listingAll, preOrder_eq_listingAll, preOrder_eq_listingAll, listingAll_cons, listing_eq,
    List.cons_append]

/-! ### Nodes below others -/

theorem mem_listingAll_cons {node first : Node} {nodes : List Node} :
    node ∈ listingAll (first :: nodes) ↔
      node = first ∨ node ∈ listingAll first.children ∨ node ∈ listingAll nodes := by
  rw [listingAll_cons, listing_eq, List.mem_append, List.mem_cons, or_assoc]

theorem mem_listingAll_of_mem {node : Node} {nodes : List Node} (h : node ∈ nodes) :
    node ∈ listingAll nodes := by
  induction nodes with
  | nil => cases h
  | cons first nodes ih =>
      rcases List.mem_cons.1 h with rfl | h
      · exact mem_listingAll_cons.2 (.inl rfl)
      · exact mem_listingAll_cons.2 (.inr (.inr (ih h)))

/-- A node is a root or below a root. -/
theorem mem_listingAll_iff {node : Node} {nodes : List Node} :
    node ∈ listingAll nodes ↔ node ∈ nodes ∨ node ∈ listingAll (nodes.flatMap children) := by
  induction nodes with
  | nil => simp
  | cons first nodes ih =>
      rw [mem_listingAll_cons, ih, List.flatMap_cons, listingAll_append, List.mem_append, List.mem_cons]
      constructor
      · rintro (h | h | h | h)
        · exact .inl (.inl h)
        · exact .inr (.inl h)
        · exact .inl (.inr h)
        · exact .inr (.inr h)
      · rintro ((h | h) | h | h)
        · exact .inl h
        · exact .inr (.inr (.inl h))
        · exact .inr (.inl h)
        · exact .inr (.inr (.inr h))

/-- What is below a node of a forest is in the forest. -/
theorem mem_listingAll_of_below {node inner : Node} {nodes : List Node} (h : node ∈ listingAll nodes)
    (hinner : inner ∈ listingAll node.children) : inner ∈ listingAll nodes := by
  rw [← preOrder_eq_listingAll] at h ⊢
  fun_induction preOrder nodes with
  | case1 => cases h
  | case2 first pending ih =>
      rcases List.mem_cons.1 h with rfl | h
      · rw [preOrder_eq_listingAll, listingAll_append]
        exact List.mem_cons_of_mem _ (List.mem_append_left _ hinner)
      · exact List.mem_cons_of_mem _ (ih h)

/-- The roots of a forest and the nodes below them are the nodes of the forest. -/
theorem perm_listingAll (nodes : List Node) :
    (nodes ++ listingAll (nodes.flatMap children)).Perm (listingAll nodes) := by
  induction nodes with
  | nil => simp
  | cons first nodes ih =>
      rw [List.flatMap_cons, listingAll_append, listingAll_cons, listing_eq, List.cons_append,
        List.cons_append, ← List.append_assoc]
      refine List.Perm.cons first (List.Perm.trans ?_ (ih.append_left _))
      rw [← List.append_assoc]
      exact List.perm_append_comm.append_right _

/-- The levels of a forest have each of its nodes once. -/
theorem levels_perm_listingAll (forest : List Node) : (levels forest).Perm (listingAll forest) := by
  fun_induction levels forest with
  | case1 => rw [listingAll_nil]
  | case2 node nodes ih => exact (ih.append_left _).trans (perm_listingAll _)

end SourceLint.Node
