import SourceLint.Proofs.Syntax.Arrangement
import SourceLint.Proofs.Syntax.LexemeOrder
import SourceLint.Proofs.Syntax.Traversal

/-!
# Which snapshots are accepted

The check of a snapshot compares each token with the one before it, and each node with its parent and with
the sibling before it. What it accepts is said here of any two tokens and of any two nodes: tokens are
apart and in order, and of two nodes, however deep they stand, the one that is visited later lies within
the other one when it stands below it, and comes behind it when it does not.

## Implementation notes

A node is known by its place, that is the node together with the path that leads to it, since a forest may
have equal nodes in different places. A node stands below another one when its path goes on from the path
of the other one. The spans of an accepted snapshot end within the source, so their ends are never cut at
the largest offset, and the check may compare them as they are.
-/

namespace SourceLint

namespace Span

/-- The end of the span is an offset, and it comes no later than the end of a source of the given
length. -/
def EndsWithin (sourceLength : Nat) (r : Span) : Prop :=
  ∃ stop, r.upperBound? = some stop ∧ stop ≤ sourceLength

theorem endsWithin_iff {sourceLength : Nat} (hlength : sourceLength ≤ maxOffset) {r : Span} :
    r.EndsWithin sourceLength ↔ r.stop ≤ sourceLength := by
  constructor
  · rintro ⟨stop, hstop, hle⟩
    obtain ⟨-, hstop⟩ := Option.ite_none_right_eq_some.1 hstop
    exact Option.some.inj hstop ▸ hle
  · intro h
    exact ⟨r.stop, if_pos (Nat.le_trans h hlength), h⟩

/-- Within a span whose end is an offset lie the spans whose ends are offsets and that lie within it when
all ends are cut at the largest offset. -/
theorem covers_eq_containsSpan {outer inner : Span} (houter : outer.stop ≤ maxOffset) :
    outer.covers inner = (inner.upperBound?.isSome && outer.containsSpan inner) := by
  by_cases hinner : inner.stop ≤ maxOffset
  · rw [containsSpan_eq_covers houter hinner, upperBound?, if_pos hinner]
    rfl
  · have hcovers : outer.covers inner = false := by
      simp only [covers, Bool.and_eq_false_iff, decide_eq_false_iff_not]
      omega
    rw [hcovers, upperBound?, if_neg hinner]
    rfl

/-- A span and a later one that is not empty share no byte just when the first one ends before the later
one begins. -/
theorem disjoint_iff {a b : Span} (ha : a.stop ≤ maxOffset) (hb : b.stop ≤ maxOffset)
    (hnonempty : b.isEmpty = false) (hle : a.location ≤ b.location) :
    (∀ offset, ¬(a.contains offset = true ∧ b.contains offset = true)) ↔ a.stop ≤ b.location := by
  have hfirst : b.location < b.stop := by
    simp only [isEmpty, beq_eq_false_iff_ne] at hnonempty
    simp only [stop]
    omega
  simp only [contains, upperBound_eq_stop ha, upperBound_eq_stop hb, Bool.and_eq_true, decide_eq_true_eq]
  constructor
  · intro hapart
    -- the first byte of the later span is not in the first span
    have := hapart b.location
    omega
  · intro hbehind offset
    omega

end Span

/-! ### Tokens -/

/-- The tokens are not empty and end within a source of the given length, no later token begins before an
earlier one, and no two of them share a byte. -/
structure TokensInOrder (sourceLength : Nat) (tokens : List Token) : Prop where
  nonempty : ∀ t ∈ tokens, t.span.isEmpty = false
  inside : ∀ t ∈ tokens, t.span.EndsWithin sourceLength
  sorted : tokens.Pairwise fun a b => a.span.location ≤ b.span.location
  disjoint : tokens.Pairwise fun a b =>
    ∀ offset, ¬(a.span.contains offset = true ∧ b.span.contains offset = true)

/-- The check accepts just the tokens that are in order. -/
theorem checkTokens_source_eq_ok_iff {sourceLength : Nat} (hlength : sourceLength ≤ Span.maxOffset)
    {tokens : List Token} :
    checkTokens sourceLength 0 0 tokens = .ok () ↔ TokensInOrder sourceLength tokens := by
  rw [checkTokens_eq_ok_iff]
  constructor
  · rintro ⟨hall, hpairwise⟩
    have hoffset : ∀ t ∈ tokens, t.span.stop ≤ Span.maxOffset :=
      fun t ht => Nat.le_trans (hall t ht).2.2 hlength
    have hsorted : tokens.Pairwise fun a b => a.span.location ≤ b.span.location :=
      hpairwise.imp fun h => Nat.le_trans (Nat.le_add_right _ _) h
    exact ⟨fun t ht => (hall t ht).1, fun t ht => (Span.endsWithin_iff hlength).2 (hall t ht).2.2, hsorted,
      (hsorted.and hpairwise).imp_of_mem fun {a b} ha hb hab =>
        (Span.disjoint_iff (hoffset a ha) (hoffset b hb) (hall b hb).1 hab.1).2 hab.2⟩
  · rintro ⟨hnonempty, hinside, hsorted, hdisjoint⟩
    have hend : ∀ t ∈ tokens, t.span.stop ≤ sourceLength :=
      fun t ht => (Span.endsWithin_iff hlength).1 (hinside t ht)
    have hoffset : ∀ t ∈ tokens, t.span.stop ≤ Span.maxOffset :=
      fun t ht => Nat.le_trans (hend t ht) hlength
    exact ⟨fun t ht => ⟨hnonempty t ht, Nat.zero_le _, hend t ht⟩,
      (hsorted.and hdisjoint).imp_of_mem fun {a b} ha hb hab =>
        (Span.disjoint_iff (hoffset a ha) (hoffset b hb) (hnonempty b hb) hab.1).1 hab.2⟩

/-! ### Places -/

namespace Node

mutual

/-- A node and the nodes below it, each with the path that leads to it, in the order of the walk. -/
def places : Node → List (List Nat × Node)
  | ⟨kind, span, name, nameSpan, body, elements, attributes, children⟩ =>
    ([], ⟨kind, span, name, nameSpan, body, elements, attributes, children⟩) :: placesFrom 0 children

/-- The nodes of a forest whose first root has the number `index`, each with its path. -/
def placesFrom (index : Nat) : List Node → List (List Nat × Node)
  | [] => []
  | node :: nodes =>
    (places node).map (fun place => (index :: place.1, place.2)) ++ placesFrom (index + 1) nodes

end

theorem places_eq (node : Node) : node.places = ([], node) :: placesFrom 0 node.children := by
  cases node
  rw [places]

theorem placesFrom_nil (index : Nat) : placesFrom index [] = [] := by rw [placesFrom]

theorem placesFrom_cons (index : Nat) (node : Node) (nodes : List Node) :
    placesFrom index (node :: nodes) =
      (([index], node) :: (placesFrom 0 node.children).map fun place => (index :: place.1, place.2)) ++
        placesFrom (index + 1) nodes := by
  rw [placesFrom, places_eq, List.map_cons]

/-- The walk visits the places in their order. -/
theorem map_snd_placesFrom (index : Nat) (nodes : List Node) :
    (placesFrom index nodes).map Prod.snd = preOrder nodes := by
  induction hcount : countAll nodes using Nat.strongRecOn generalizing index nodes with
  | ind count ih =>
      cases nodes with
      | nil =>
          rw [placesFrom_nil, preOrder]
          rfl
      | cons node nodes =>
          rw [countAll_cons, count_eq] at hcount
          have hchildren := ih _ (by omega) 0 node.children rfl
          have hnodes := ih _ (by omega) (index + 1) nodes rfl
          rw [placesFrom_cons, preOrder_cons, ← hchildren, ← hnodes, List.map_append, List.map_cons,
            List.map_map]
          rfl

/-- The path of a node begins with the number of its root. -/
theorem exists_path_of_mem {index : Nat} {nodes : List Node} {place : List Nat × Node}
    (h : place ∈ placesFrom index nodes) : ∃ root path, place.1 = root :: path ∧ index ≤ root := by
  induction nodes generalizing index with
  | nil =>
      rw [placesFrom_nil] at h
      cases h
  | cons node nodes ih =>
      rw [placesFrom, List.mem_append, List.mem_map] at h
      rcases h with ⟨inner, -, rfl⟩ | h
      · exact ⟨index, inner.1, rfl, Nat.le_refl _⟩
      · obtain ⟨root, path, hpath, hle⟩ := ih h
        exact ⟨root, path, hpath, by omega⟩

/-- No later root and nothing below it stands below the root with the number `index`. -/
theorem not_prefix_of_mem {index : Nat} {nodes : List Node} {place : List Nat × Node}
    (h : place ∈ placesFrom (index + 1) nodes) (path : List Nat) : ¬index :: path <+: place.1 := by
  obtain ⟨root, rest, hpath, hle⟩ := exists_path_of_mem h
  rw [hpath, List.cons_prefix_cons]
  rintro ⟨rfl, -⟩
  omega

/-- Of two places, the second one visited later, the second one lies within the first one when it stands
below it, and behind it otherwise. -/
def Follows (a b : List Nat × Node) : Prop :=
  (a.1 <+: b.1 → a.2.span.covers b.2.span = true) ∧
    (¬a.1 <+: b.1 → a.2.span.stop ≤ b.2.span.location)

theorem follows_below {root : Nat} {path : List Nat} {node inner : Node} :
    Follows ([root], node) (root :: path, inner) ↔
      node.span.location ≤ inner.span.location ∧ inner.span.stop ≤ node.span.stop := by
  have hprefix : [root] <+: root :: path := ⟨path, rfl⟩
  simp [Follows, hprefix, Span.covers]

theorem follows_under {root : Nat} {a b : List Nat × Node} :
    Follows (root :: a.1, a.2) (root :: b.1, b.2) ↔ Follows a b := by
  simp [Follows, List.cons_prefix_cons]

theorem follows_later {index : Nat} {path : List Nat} {node : Node} {nodes : List Node}
    {b : List Nat × Node} (hb : b ∈ placesFrom (index + 1) nodes) :
    Follows (index :: path, node) b ↔ node.span.stop ≤ b.2.span.location := by
  simp [Follows, not_prefix_of_mem hb path]

/-- A forest is arranged when all its nodes lie between two offsets and any two of them follow each
other. -/
theorem arranged_iff_follows {start stop : Nat} {nodes : List Node} (index : Nat) :
    Arranged start stop nodes ↔
      (∀ place ∈ placesFrom index nodes, start ≤ place.2.span.location ∧ place.2.span.stop ≤ stop) ∧
        (placesFrom index nodes).Pairwise Follows := by
  induction hcount : countAll nodes using Nat.strongRecOn generalizing start stop index nodes with
  | ind count ih =>
      cases nodes with
      | nil => simp [placesFrom_nil, Arranged.nil]
      | cons node nodes =>
          rw [countAll_cons, count_eq] at hcount
          have hchildren : Arranged node.span.location node.span.stop node.children ↔ _ :=
            ih _ (by omega) 0 rfl
          have hnodes : Arranged node.span.stop stop nodes ↔ _ := ih _ (by omega) (index + 1) rfl
          have hlocation := node.span_location_le_stop
          rw [arranged_cons, hchildren, hnodes, placesFrom_cons, List.pairwise_append, List.pairwise_cons,
            List.pairwise_map]
          simp only [List.forall_mem_append, List.forall_mem_cons, List.forall_mem_map, follows_under,
            follows_below]
          constructor
          · rintro ⟨hbegins, hends, ⟨hinside, hpairwise⟩, hbehind, hlater⟩
            refine ⟨⟨⟨⟨hbegins, hends⟩, fun a ha => ?_⟩, fun b hb => ?_⟩, ⟨hinside, hpairwise⟩, hlater,
              fun b hb => (follows_later hb).2 (hbehind b hb).1,
              fun a ha b hb => (follows_later hb).2 ?_⟩
            · have := hinside a ha
              omega
            · have := hbehind b hb
              omega
            · exact Nat.le_trans (hinside a ha).2 (hbehind b hb).1
          · rintro ⟨⟨⟨⟨hbegins, hends⟩, -⟩, hbetween⟩, hbelow, hlater, hroot, -⟩
            exact ⟨hbegins, hends, hbelow,
              fun b hb => ⟨(follows_later hb).1 (hroot b hb), (hbetween b hb).2⟩, hlater⟩

/-! ### The check of the nodes -/

theorem checkWithin_eq_ok_iff {parent : Span} {path : List Nat} {node : Node} :
    checkWithin parent path node = .ok () ↔
      parent.covers node.span = true ∧
        checkSiblings node.span path 0 node.span.location node.children = .ok () := by
  cases node
  rw [checkWithin]
  split
  · simp_all
  · simp_all

theorem checkSiblings_cons_eq_ok_iff {parent : Span} {path : List Nat} {index least : Nat} {node : Node}
    {nodes : List Node} :
    checkSiblings parent path index least (node :: nodes) = .ok () ↔
      least ≤ node.span.location ∧ checkWithin parent (path ++ [index]) node = .ok () ∧
        checkSiblings parent path (index + 1) node.span.stop nodes = .ok () := by
  rw [checkSiblings, exceptIte_eq_ok_iff, Nat.not_lt]
  cases checkWithin parent (path ++ [index]) node with
  | error fault => simp
  | ok accepted => simp

/-- The check accepts just the arranged forests. -/
theorem checkSiblings_eq_ok_iff {parent : Span} {path : List Nat} {index least : Nat} {nodes : List Node}
    (hleast : parent.location ≤ least) :
    checkSiblings parent path index least nodes = .ok () ↔ Arranged least parent.stop nodes := by
  refine ⟨fun h => ?_, fun h => h.checkSiblings path index hleast (Nat.le_refl _)⟩
  induction hcount : countAll nodes using Nat.strongRecOn generalizing parent path index least nodes with
  | ind count ih =>
      cases nodes with
      | nil => exact .nil
      | cons node nodes =>
          rw [countAll_cons, count_eq] at hcount
          obtain ⟨hbegins, hwithin, hnodes⟩ := checkSiblings_cons_eq_ok_iff.1 h
          obtain ⟨hcovers, hchildren⟩ := checkWithin_eq_ok_iff.1 hwithin
          simp only [Span.covers, Bool.and_eq_true, decide_eq_true_eq] at hcovers
          have hlocation := node.span_location_le_stop
          exact .cons hbegins hcovers.2 (ih _ (by omega) (Nat.le_refl _) hchildren rfl)
            (ih _ (by omega) (by omega) hnodes rfl)

/-- The roots are checked against the span of the whole source. -/
theorem checkSiblings_source_eq_ok_iff {sourceLength : Nat} {forest : List Node} :
    checkSiblings ⟨0, sourceLength⟩ [] 0 0 forest = .ok () ↔ Arranged 0 sourceLength forest := by
  rw [checkSiblings_eq_ok_iff (Nat.le_refl 0), Span.stop, Nat.zero_add]

/-- Every node ends within a source of the given length, a node that stands below another one lies within
its span, and of two nodes that stand beside each other the one visited first ends no later than the other
one begins. -/
structure WellNested (sourceLength : Nat) (forest : List Node) : Prop where
  inside : ∀ place ∈ placesFrom 0 forest, place.2.span.EndsWithin sourceLength
  below : (placesFrom 0 forest).Pairwise fun a b =>
    a.1 <+: b.1 → a.2.span.containsSpan b.2.span = true
  behind : (placesFrom 0 forest).Pairwise fun a b =>
    ¬a.1 <+: b.1 → a.2.span.upperBound ≤ b.2.span.location

theorem wellNested_iff_arranged {sourceLength : Nat} (hlength : sourceLength ≤ Span.maxOffset)
    {forest : List Node} : WellNested sourceLength forest ↔ Arranged 0 sourceLength forest := by
  have hends : ∀ r : Span, r.EndsWithin sourceLength → r.stop ≤ Span.maxOffset :=
    fun r hr => Nat.le_trans ((Span.endsWithin_iff hlength).1 hr) hlength
  rw [arranged_iff_follows 0]
  constructor
  · rintro ⟨hinside, hbelow, hbehind⟩
    refine ⟨fun a ha => ⟨Nat.zero_le _, (Span.endsWithin_iff hlength).1 (hinside a ha)⟩, ?_⟩
    refine (hbelow.and hbehind).imp_of_mem fun {a b} ha hb hab => ?_
    rw [Span.containsSpan_eq_covers (hends _ (hinside a ha)) (hends _ (hinside b hb)),
      Span.upperBound_eq_stop (hends _ (hinside a ha))] at hab
    exact hab
  · rintro ⟨hinside, hfollows⟩
    have hwithin : ∀ a ∈ placesFrom 0 forest, a.2.span.EndsWithin sourceLength :=
      fun a ha => (Span.endsWithin_iff hlength).2 (hinside a ha).2
    refine ⟨hwithin, hfollows.imp_of_mem fun {a b} ha hb hab => ?_,
      hfollows.imp_of_mem fun {a b} ha _ hab => ?_⟩
    · rw [Span.containsSpan_eq_covers (hends _ (hwithin a ha)) (hends _ (hwithin b hb))]
      exact hab.1
    · rw [Span.upperBound_eq_stop (hends _ (hwithin a ha))]
      exact hab.2

/-- The walk through an arranged forest goes forward in the source. -/
theorem Arranged.preOrder_sorted {start stop : Nat} {forest : List Node} (h : Arranged start stop forest) :
    (preOrder forest).Pairwise fun a b => a.span.location ≤ b.span.location := by
  rw [← map_snd_placesFrom 0, List.pairwise_map]
  refine ((arranged_iff_follows 0).1 h).2.imp fun {a b} hab => ?_
  by_cases hprefix : a.1 <+: b.1
  · have hcovers := hab.1 hprefix
    simp only [Span.covers, Bool.and_eq_true, decide_eq_true_eq] at hcovers
    exact hcovers.1
  · exact Nat.le_trans a.2.span_location_le_stop (hab.2 hprefix)

end Node

/-! ### Snapshots -/

namespace Snapshot

theorem assemble_eq_ok_iff {forest : List Node} {tokens : TokenStream} {sourceLength : Nat}
    {snapshot : Snapshot} :
    assemble forest tokens sourceLength = .ok snapshot ↔
      checkTokens sourceLength 0 0 tokens.toList = .ok () ∧
        Node.checkSiblings ⟨0, sourceLength⟩ [] 0 0 forest = .ok () ∧ snapshot = ⟨forest, tokens⟩ := by
  rw [assemble]
  cases checkTokens sourceLength 0 0 tokens.toList <;>
    cases Node.checkSiblings ⟨0, sourceLength⟩ [] 0 0 forest <;> simp [eq_comm]

/-- A snapshot is accepted just when its tokens are apart and in order and its nodes, at any depths, are
nested or one behind the other. It then has the parts it was put together from, and the walk through its
forest goes forward in the source. -/
theorem assemble_succeeds_iff (forest : List Node) (tokens : TokenStream) {sourceLength : Nat}
    (hlength : sourceLength ≤ Span.maxOffset) :
    ((∃ snapshot, assemble forest tokens sourceLength = .ok snapshot) ↔
      TokensInOrder sourceLength tokens.toList ∧ Node.WellNested sourceLength forest) ∧
    ∀ snapshot, assemble forest tokens sourceLength = .ok snapshot →
      snapshot = ⟨forest, tokens⟩ ∧
        (Node.preOrder snapshot.forest).Pairwise fun a b => a.span.location ≤ b.span.location := by
  have hok : ∀ snapshot, assemble forest tokens sourceLength = .ok snapshot ↔
      TokensInOrder sourceLength tokens.toList ∧ Node.WellNested sourceLength forest ∧
        snapshot = ⟨forest, tokens⟩ := fun snapshot => by
    rw [assemble_eq_ok_iff, checkTokens_source_eq_ok_iff hlength, Node.checkSiblings_source_eq_ok_iff,
      Node.wellNested_iff_arranged hlength]
  refine ⟨⟨fun ⟨snapshot, h⟩ => ?_, fun ⟨htokens, hnested⟩ => ⟨_, (hok _).2 ⟨htokens, hnested, rfl⟩⟩⟩,
    fun snapshot h => ?_⟩
  · obtain ⟨htokens, hnested, -⟩ := (hok snapshot).1 h
    exact ⟨htokens, hnested⟩
  · obtain ⟨-, hnested, rfl⟩ := (hok snapshot).1 h
    exact ⟨rfl, ((Node.wellNested_iff_arranged hlength).1 hnested).preOrder_sorted⟩

/-- A call with an empty list and a closure in it is accepted, and so its parts are well nested. A node
whose end is no offset is refused in a source as long as sources get, although its end cut at the largest
offset lies within this source. -/
theorem assemble_succeeds_iff_call :
    4 ≤ Span.maxOffset ∧
      TokensInOrder 4 [⟨.identifier, ⟨0, 1⟩⟩, ⟨.keyword, ⟨2, 2⟩⟩] ∧
      Node.WellNested 4
        [{ kind := .call, span := ⟨0, 4⟩,
           children := [{ kind := .array, span := ⟨1, 0⟩ }, { kind := .closure, span := ⟨1, 3⟩ }] }] ∧
      Span.upperBound ⟨1, Span.maxOffset⟩ ≤ Span.maxOffset ∧
      ¬Node.WellNested Span.maxOffset [{ kind := .call, span := ⟨1, Span.maxOffset⟩ }] := by
  have hlength : 4 ≤ Span.maxOffset := by decide
  obtain ⟨htokens, hnested⟩ := (assemble_succeeds_iff
    [{ kind := .call, span := ⟨0, 4⟩,
       children := [{ kind := .array, span := ⟨1, 0⟩ }, { kind := .closure, span := ⟨1, 3⟩ }] }]
    ⟨#[⟨.identifier, ⟨0, 1⟩⟩, ⟨.keyword, ⟨2, 2⟩⟩]⟩ hlength).1.1 ⟨_, rfl⟩
  refine ⟨hlength, htokens, hnested, by decide, fun hlong => ?_⟩
  obtain ⟨snapshot, hsnapshot⟩ := (assemble_succeeds_iff [{ kind := .call, span := ⟨1, Span.maxOffset⟩ }]
    ⟨#[]⟩ (Nat.le_refl Span.maxOffset)).1.2
      ⟨⟨by simp [TokenStream.toList], by simp [TokenStream.toList], .nil, .nil⟩, hlong⟩
  cases hsnapshot

end Snapshot

end SourceLint
