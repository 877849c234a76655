import SourceLint.Proofs.Syntax.Traversal
import SourceLint.Syntax.Snapshot

/-!
# Arranged forests

The forest of a source text is arranged: at every depth siblings come one after the other, and each of
them lies within its parent. The check of a snapshot accepts arranged forests, and these are put together
from arranged pieces.
-/

namespace SourceLint.Node

/-- The nodes begin at `start` or later, come one after the other and end at `stop` or before, and so do
the children of each node within its span. -/
inductive Arranged : (start stop : Nat) → List Node → Prop
  | nil {start stop : Nat} : Arranged start stop []
  | cons {start stop : Nat} {node : Node} {nodes : List Node} (begins : start ≤ node.span.location)
      (ends : node.span.stop ≤ stop)
      (inside : Arranged node.span.location node.span.stop node.children)
      (behind : Arranged node.span.stop stop nodes) : Arranged start stop (node :: nodes)

theorem span_location_le_stop (node : Node) : node.span.location ≤ node.span.stop :=
  Nat.le_add_right _ _

theorem arranged_cons {start stop : Nat} {node : Node} {nodes : List Node} :
    Arranged start stop (node :: nodes) ↔
      start ≤ node.span.location ∧ node.span.stop ≤ stop ∧
        Arranged node.span.location node.span.stop node.children ∧
        Arranged node.span.stop stop nodes := by
  constructor
  · rintro (_ | ⟨begins, ends, inside, behind⟩)
    exact ⟨begins, ends, inside, behind⟩
  · rintro ⟨begins, ends, inside, behind⟩
    exact .cons begins ends inside behind

theorem arranged_singleton {start stop : Nat} {node : Node} :
    Arranged start stop [node] ↔
      start ≤ node.span.location ∧ node.span.stop ≤ stop ∧
        Arranged node.span.location node.span.stop node.children := by
  rw [arranged_cons]
  exact ⟨fun h => ⟨h.1, h.2.1, h.2.2.1⟩, fun h => ⟨h.1, h.2.1, h.2.2, .nil⟩⟩

namespace Arranged

variable {start stop : Nat} {nodes : List Node}

theorem mono {start' stop' : Nat} (h : Arranged start stop nodes) (hstart : start' ≤ start)
    (hstop : stop ≤ stop') : Arranged start' stop' nodes := by
  induction nodes generalizing start start' with
  | nil => exact .nil
  | cons node nodes ih =>
      obtain ⟨begins, ends, inside, behind⟩ := arranged_cons.1 h
      exact .cons (by omega) (by omega) inside (ih behind (Nat.le_refl _))

theorem stop_le_of_mem (h : Arranged start stop nodes) {node : Node} (hnode : node ∈ nodes) :
    node.span.stop ≤ stop := by
  induction nodes generalizing start with
  | nil => cases hnode
  | cons first nodes ih =>
      obtain ⟨-, ends, -, behind⟩ := arranged_cons.1 h
      rcases List.mem_cons.1 hnode with rfl | hnode
      · exact ends
      · exact ih behind hnode

/-- A forest behind another one. -/
theorem append {middle start' : Nat} {more : List Node} (h : Arranged start middle nodes)
    (hmore : Arranged start' stop more) (hstart : start ≤ start') (hmiddle : middle ≤ start')
    (hstop : middle ≤ stop) : Arranged start stop (nodes ++ more) := by
  induction nodes generalizing start with
  | nil => exact hmore.mono hstart (Nat.le_refl _)
  | cons node nodes ih =>
      obtain ⟨begins, ends, inside, behind⟩ := arranged_cons.1 h
      exact .cons begins (by omega) inside (ih behind (by omega))

/-- The nodes before the last one end where it begins. -/
theorem of_concat {node : Node} (h : Arranged start stop (nodes ++ [node])) :
    Arranged start node.span.location nodes ∧ start ≤ node.span.location ∧
      Arranged node.span.location stop [node] := by
  induction nodes generalizing start with
  | nil =>
      obtain ⟨begins, ends, inside⟩ := arranged_singleton.1 h
      exact ⟨.nil, begins, arranged_singleton.2 ⟨Nat.le_refl _, ends, inside⟩⟩
  | cons first nodes ih =>
      obtain ⟨begins, ends, inside, behind⟩ := arranged_cons.1 h
      obtain ⟨hnodes, hle, hlast⟩ := ih behind
      have := first.span_location_le_stop
      exact ⟨.cons begins hle inside hnodes, by omega, hlast⟩

/-- An arranged forest passes the check of a snapshot. -/
theorem checkSiblings (h : Arranged start stop nodes) {parent : Span} (path : List Nat)
    (index : Nat) (hstart : parent.location ≤ start) (hstop : stop ≤ parent.stop) :
    Node.checkSiblings parent path index start nodes = .ok () := by
  induction h generalizing parent path index with
  | nil => rw [Node.checkSiblings]
  | @cons start stop node nodes begins ends inside behind hchildren hnodes =>
      have hwithin : Node.checkWithin parent (path ++ [index]) node = .ok () := by
        have hcovers : parent.covers node.span = true := by
          simp only [Span.covers, Bool.and_eq_true, decide_eq_true_eq]
          omega
        cases node
        rw [Node.checkWithin, if_pos hcovers]
        exact hchildren _ _ (Nat.le_refl _) (Nat.le_refl _)
      have hlocation := node.span_location_le_stop
      rw [Node.checkSiblings, if_neg (by omega), hwithin]
      exact hnodes _ _ (by omega) hstop

/-! ### Nodes of an arranged forest -/

/-- Every node of an arranged forest lies between its ends, and so do its children within its span. -/
theorem of_mem_listingAll (h : Arranged start stop nodes) {node : Node}
    (hnode : node ∈ listingAll nodes) :
    start ≤ node.span.location ∧ node.span.stop ≤ stop ∧
      Arranged node.span.location node.span.stop node.children := by
  induction h with
  | nil => simp at hnode
  | @cons start stop first nodes begins ends inside behind hchildren hnodes =>
      have hlocation := first.span_location_le_stop
      rcases mem_listingAll_cons.1 hnode with rfl | hnode | hnode
      · exact ⟨begins, ends, inside⟩
      · obtain ⟨hstart, hstop, harranged⟩ := hchildren hnode
        exact ⟨by omega, by omega, harranged⟩
      · obtain ⟨hstart, hstop, harranged⟩ := hnodes hnode
        exact ⟨by omega, hstop, harranged⟩

/-- Of two nodes in the listing of an arranged forest the second one is below the first one or behind
it. -/
theorem pairwise_listingAll (h : Arranged start stop nodes) :
    (listingAll nodes).Pairwise fun a b =>
      b ∈ listingAll a.children ∨ a.span.stop ≤ b.span.location := by
  induction h with
  | nil => simp
  | @cons start stop first nodes begins ends inside behind hchildren hnodes =>
      rw [listingAll_cons, listing_eq, List.cons_append, List.pairwise_cons, List.pairwise_append]
      refine ⟨?_, hchildren, hnodes, ?_⟩
      · intro node hnode
        rcases List.mem_append.1 hnode with hnode | hnode
        · exact .inl hnode
        · exact .inr (behind.of_mem_listingAll hnode).1
      · intro a ha b hb
        exact .inr (Nat.le_trans (inside.of_mem_listingAll ha).2.1 (behind.of_mem_listingAll hb).1)

/-- A node that lies strictly within another one is below it. -/
theorem mem_children_of_within (h : Arranged start stop nodes) {node inner : Node}
    (hnode : node ∈ listingAll nodes) (hinner : inner ∈ listingAll nodes)
    (hlocation : node.span.location < inner.span.location)
    (hstop : inner.span.stop < node.span.stop) : inner ∈ listingAll node.children := by
  have hle := inner.span_location_le_stop
  induction h with
  | nil => simp at hnode
  | @cons start stop first nodes begins ends inside behind hchildren hnodes =>
      have hinside : ∀ n ∈ listingAll first.children,
          first.span.location ≤ n.span.location ∧ n.span.stop ≤ first.span.stop := fun n hn =>
        ⟨(inside.of_mem_listingAll hn).1, (inside.of_mem_listingAll hn).2.1⟩
      have hbehind : ∀ n ∈ listingAll nodes, first.span.stop ≤ n.span.location := fun n hn =>
        (behind.of_mem_listingAll hn).1
      have hfirst := first.span_location_le_stop
      rcases mem_listingAll_cons.1 hnode with rfl | hnode | hnode
      · rcases mem_listingAll_cons.1 hinner with rfl | hinner | hinner
        · omega
        · exact hinner
        · have := hbehind inner hinner
          omega
      · have hplace := hinside node hnode
        rcases mem_listingAll_cons.1 hinner with rfl | hinner | hinner
        · omega
        · exact hchildren hnode hinner
        · have := hbehind inner hinner
          omega
      · have hplace := hbehind node hnode
        rcases mem_listingAll_cons.1 hinner with rfl | hinner | hinner
        · omega
        · have := hinside inner hinner
          omega
        · exact hnodes hnode hinner

end Arranged

end SourceLint.Node
