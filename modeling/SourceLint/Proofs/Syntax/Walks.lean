import Mathlib.Data.List.Perm.Basic
import SourceLint.Proofs.Syntax.Nesting

/-!
# Walks visit each place of a forest once

A walk takes one step after the other until no node is pending. On a stack it visits each node before the
nodes below it, and on a queue one level of the forest after the other. Either way it comes to an end, and
each place of the forest is visited once, so the two walks visit the same nodes in two orders.

## Main results

* `Node.walks_eq`: what the two walks visit.

## Implementation notes

A queue that starts with one level holds, on the way through it, the rest of this level and the beginning of
the next one. `breadthFirst_append` therefore speaks of a level with any nodes behind it.
-/

namespace SourceLint.Node

/-! ### Runs -/

/-- A walk with the step `next` visits the nodes of the list, one in each step, and comes to its end. -/
inductive Visits (next : List Node → Option (Node × List Node)) : List Node → List Node → Prop
  | done {pending : List Node} (h : next pending = none) : Visits next pending []
  | visit {pending later nodes : List Node} {node : Node} (h : next pending = some (node, later))
      (rest : Visits next later nodes) : Visits next pending (node :: nodes)

/-- A walk visits one list of nodes only. -/
theorem Visits.unique {next : List Node → Option (Node × List Node)} {pending nodes others : List Node}
    (h : Visits next pending nodes) (h' : Visits next pending others) : nodes = others := by
  induction h generalizing others with
  | done hdone =>
      cases h' with
      | done => rfl
      | visit hstep => cases hdone.symm.trans hstep
  | visit hstep _ ih =>
      cases h' with
      | done hdone => cases hdone.symm.trans hstep
      | visit hstep' rest' =>
          obtain ⟨rfl, rfl⟩ := Prod.mk.inj (Option.some.inj (hstep.symm.trans hstep'))
          rw [ih rest']

theorem pop?_cons (node : Node) (stack : List Node) :
    pop? (node :: stack) = some (node, node.children ++ stack) := by
  rw [pop?, List.foldl_reverse, List.foldr_cons_eq_append']

/-- The walk on a stack comes to an end, and `preOrder` has what it visits. -/
theorem visits_pop?_preOrder (stack : List Node) : Visits pop? stack (preOrder stack) := by
  fun_induction preOrder stack with
  | case1 => exact .done rfl
  | case2 node pending ih => exact .visit (pop?_cons node pending) ih

/-- The walk on a queue comes to an end, and `breadthFirst` has what it visits. -/
theorem visits_dequeue?_breadthFirst (queue : List Node) :
    Visits dequeue? queue (breadthFirst queue) := by
  fun_induction breadthFirst queue with
  | case1 => exact .done rfl
  | case2 node pending ih => exact .visit rfl ih

/-! ### Levels -/

/-- The nodes that stand `depth` levels below the roots. -/
def level : (depth : Nat) → List Node → List Node
  | 0, forest => forest
  | depth + 1, forest => level depth (forest.flatMap children)

theorem level_nil (depth : Nat) : level depth [] = [] := by
  induction depth with
  | zero => rfl
  | succ depth ih => rw [level, List.flatMap_nil, ih]

/-- The levels of a forest down to the last one that has a node. -/
theorem exists_levels_eq (forest : List Node) : ∃ height,
    (∀ depth, level depth forest = [] ↔ height ≤ depth) ∧
      levels forest = (List.range height).flatMap fun depth => level depth forest := by
  fun_induction levels forest with
  | case1 => exact ⟨0, by simp [level_nil], rfl⟩
  | case2 node nodes ih =>
      obtain ⟨height, hempty, hlevels⟩ := ih
      refine ⟨height + 1, ?_, ?_⟩
      · rintro (_ | depth)
        · simp [level]
        · rw [level, hempty, Nat.add_le_add_iff_right]
      · have hsplit : (List.range (height + 1)).flatMap (fun depth => level depth (node :: nodes)) =
            node :: nodes ++ (List.range height).flatMap fun depth =>
              level depth ((node :: nodes).flatMap children) := by
          rw [List.range_succ_eq_map]
          simp only [List.flatMap_cons, List.flatMap_map, level]
        rw [hsplit, hlevels]

/-- A level is visited before what was put behind it and before the level below it. -/
theorem breadthFirst_append (nodes behind : List Node) :
    breadthFirst (nodes ++ behind) = nodes ++ breadthFirst (behind ++ nodes.flatMap children) := by
  induction nodes generalizing behind with
  | nil => simp
  | cons node nodes ih =>
      rw [List.cons_append, breadthFirst, List.append_assoc, ih, List.flatMap_cons, List.append_assoc,
        List.cons_append]

theorem breadthFirst_eq_levels (forest : List Node) : breadthFirst forest = levels forest := by
  fun_induction levels forest with
  | case1 => rw [breadthFirst]
  | case2 node nodes ih =>
      have hlevel := breadthFirst_append (node :: nodes) []
      rwa [List.append_nil, List.nil_append, ih] at hlevel

/-! ### Places -/

/-- The node at a place: a path begins with the number of a root and goes on with the number of a child at
each level. -/
def nodeAt? (forest : List Node) : List Nat → Option Node
  | [] => none
  | [root] => forest[root]?
  | root :: child :: path => forest[root]?.bind fun node => nodeAt? node.children (child :: path)

/-- The list has one entry for each place of the forest, which is the node at that place. -/
def HasEachOnce (forest nodes : List Node) : Prop :=
  ∃ places : List (List Nat × Node), places.map Prod.snd = nodes ∧ (places.map Prod.fst).Nodup ∧
    ∀ path node, (path, node) ∈ places ↔ nodeAt? forest path = some node

/-- The places are those of the roots and those below them. -/
theorem mem_placesFrom_cons {index : Nat} {first node : Node} {nodes : List Node} {path : List Nat} :
    (path, node) ∈ placesFrom index (first :: nodes) ↔
      path = [index] ∧ node = first ∨
        (∃ below, path = index :: below ∧ (below, node) ∈ placesFrom 0 first.children) ∨
        (path, node) ∈ placesFrom (index + 1) nodes := by
  rw [placesFrom_cons, List.cons_append, List.mem_cons, List.mem_append, Prod.mk.injEq, List.mem_map]
  simp only [Prod.exists, Prod.mk.injEq]
  constructor
  · rintro (h | ⟨below, inner, hinner, rfl, rfl⟩ | h)
    · exact .inl h
    · exact .inr (.inl ⟨below, rfl, hinner⟩)
    · exact .inr (.inr h)
  · rintro (h | ⟨below, rfl, hinner⟩ | h)
    · exact .inl h
    · exact .inr (.inl ⟨below, node, hinner, rfl, rfl⟩)
    · exact .inr (.inr h)

theorem mem_placesFrom_iff (index : Nat) (nodes : List Node) {path : List Nat} {node : Node} :
    (path, node) ∈ placesFrom index nodes ↔
      ∃ root below, path = (index + root) :: below ∧ nodeAt? nodes (root :: below) = some node := by
  induction hcount : countAll nodes using Nat.strongRecOn generalizing index nodes path with
  | ind count ih =>
      cases nodes with
      | nil =>
          rw [placesFrom_nil]
          constructor
          · intro h
            cases h
          · rintro ⟨root, _ | ⟨child, below⟩, -, h⟩ <;> simp [nodeAt?] at h
      | cons first nodes =>
          rw [countAll_cons, count_eq] at hcount
          rw [mem_placesFrom_cons, ih _ (by omega) (index + 1) nodes rfl]
          constructor
          · rintro (⟨rfl, rfl⟩ | ⟨below, rfl, hbelow⟩ | ⟨root, below, rfl, hnode⟩)
            · exact ⟨0, [], rfl, rfl⟩
            · obtain ⟨child, path, rfl, hnode⟩ := (ih _ (by omega) 0 first.children rfl).1 hbelow
              rw [Nat.zero_add]
              exact ⟨0, child :: path, rfl, hnode⟩
            · refine ⟨root + 1, below, by rw [Nat.add_assoc, Nat.add_comm 1], ?_⟩
              cases below <;> simpa [nodeAt?] using hnode
          · rintro ⟨_ | root, below, rfl, hnode⟩
            · cases below with
              | nil => exact .inl ⟨rfl, (Option.some.inj hnode).symm⟩
              | cons child path =>
                  refine .inr (.inl ⟨child :: path, rfl, ?_⟩)
                  refine (ih _ (by omega) 0 first.children rfl).2 ⟨child, path, by rw [Nat.zero_add], ?_⟩
                  simpa [nodeAt?] using hnode
            · refine .inr (.inr ⟨root, below, by rw [Nat.add_assoc, Nat.add_comm 1], ?_⟩)
              cases below <;> simpa [nodeAt?] using hnode

/-- No two places have the same path. -/
theorem nodup_placesFrom (index : Nat) (nodes : List Node) :
    ((placesFrom index nodes).map Prod.fst).Nodup := by
  induction hcount : countAll nodes using Nat.strongRecOn generalizing index nodes with
  | ind count ih =>
      cases nodes with
      | nil =>
          rw [placesFrom_nil]
          exact .nil
      | cons first nodes =>
          rw [countAll_cons, count_eq] at hcount
          have hbelow := ih _ (by omega) 0 first.children rfl
          have hlater := ih _ (by omega) (index + 1) nodes rfl
          have hapart : ∀ path below, path ∈ (placesFrom (index + 1) nodes).map Prod.fst →
              path ≠ index :: below := by
            rintro _ below hpath rfl
            obtain ⟨place, hplace, hpath⟩ := List.mem_map.1 hpath
            exact not_prefix_of_mem hplace below (hpath ▸ List.prefix_rfl)
          rw [placesFrom_cons, List.map_append, List.map_cons, List.map_map]
          have hunder : (Prod.fst ∘ fun place : List Nat × Node => (index :: place.1, place.2)) =
              (index :: ·) ∘ Prod.fst := rfl
          rw [hunder, ← List.map_map, List.nodup_append, List.nodup_cons]
          have hnodup : (((placesFrom 0 first.children).map Prod.fst).map (index :: ·)).Nodup :=
            List.pairwise_map.2 (hbelow.imp fun hne h => hne (List.tail_eq_of_cons_eq h))
          refine ⟨⟨?_, hnodup⟩, hlater, ?_⟩
          · rw [List.mem_map]
            rintro ⟨path, hpath, hroot⟩
            obtain ⟨place, hplace, rfl⟩ := List.mem_map.1 hpath
            obtain ⟨root, rest, hcons, -⟩ := exists_path_of_mem hplace
            rw [hcons] at hroot
            cases hroot
          · rintro path hpath other hother rfl
            rcases List.mem_cons.1 hpath with rfl | hpath
            · exact hapart _ [] hother rfl
            · obtain ⟨below, -, rfl⟩ := List.mem_map.1 hpath
              exact hapart _ below hother rfl

/-- The places in the order of the walk on a stack. -/
theorem hasEachOnce_preOrder (forest : List Node) : HasEachOnce forest (preOrder forest) := by
  refine ⟨placesFrom 0 forest, map_snd_placesFrom 0 forest, nodup_placesFrom 0 forest, ?_⟩
  intro path node
  rw [mem_placesFrom_iff]
  constructor
  · rintro ⟨root, below, rfl, hnode⟩
    rwa [Nat.zero_add]
  · intro hnode
    cases path with
    | nil => cases hnode
    | cons root below => exact ⟨root, below, by rw [Nat.zero_add], hnode⟩

/-- A list with the same nodes in another order has the places in that order. -/
theorem HasEachOnce.of_perm {forest nodes others : List Node} (h : HasEachOnce forest nodes)
    (hperm : nodes.Perm others) : HasEachOnce forest others := by
  obtain ⟨places, rfl, hnodup, hmem⟩ := h
  have hnodes : List.Forall₂ (fun node place => node = Prod.snd place) (places.map Prod.snd) places :=
    List.forall₂_map_left_iff.2 (List.forall₂_same.2 fun _ _ => rfl)
  obtain ⟨places', hothers, hplaces⟩ := List.perm_comp_forall₂ hperm.symm hnodes
  refine ⟨places', ?_, (hplaces.map Prod.fst).nodup_iff.2 hnodup, fun path node => ?_⟩
  · rwa [← List.forall₂_map_right_iff, List.forall₂_eq_eq_eq, eq_comm] at hothers
  · rw [hplaces.mem_iff, hmem]

/-- The walk on a stack ends and visits the listing of the forest, each node before the listings of its
children; the walk on a queue ends and visits the levels of the forest from the roots down. Each of them
visits every place of the forest once, so they are permutations of one another. -/
theorem walks_eq (forest : List Node) :
    (∀ nodes, Visits pop? forest nodes ↔ nodes = preOrder forest) ∧
    (∀ nodes, Visits dequeue? forest nodes ↔ nodes = breadthFirst forest) ∧
    preOrder forest = listingAll forest ∧
    (∃ height, (∀ depth, level depth forest = [] ↔ height ≤ depth) ∧
      breadthFirst forest = (List.range height).flatMap fun depth => level depth forest) ∧
    HasEachOnce forest (preOrder forest) ∧ HasEachOnce forest (breadthFirst forest) ∧
    (breadthFirst forest).Perm (preOrder forest) := by
  have hperm : (breadthFirst forest).Perm (preOrder forest) := by
    rw [breadthFirst_eq_levels, preOrder_eq_listingAll]
    exact levels_perm_listingAll forest
  have hstack := visits_pop?_preOrder forest
  have hqueue := visits_dequeue?_breadthFirst forest
  refine ⟨fun nodes => ⟨fun h => h.unique hstack, fun h => h ▸ hstack⟩,
    fun nodes => ⟨fun h => h.unique hqueue, fun h => h ▸ hqueue⟩, preOrder_eq_listingAll forest, ?_,
    hasEachOnce_preOrder forest, (hasEachOnce_preOrder forest).of_perm hperm.symm, hperm⟩
  rw [breadthFirst_eq_levels]
  exact exists_levels_eq forest

end SourceLint.Node
