import SourceLint.Proofs.Grammar.Loops
import SourceLint.Proofs.Rules.Places
import SourceLint.Proofs.Syntax.Meeting

/-!
# Loops over enumerated calls

The rule takes any child of a loop that is an enumerated call for the sequence of the loop. The child may be the
sequence, but it may also be a part of it, such as an operand or what a member is taken of, and it may stand in the
condition behind `where`. So the rule reports loops that go over something else.

## Main results

* `UnusedEnumerated.exists_loop_of_mem_validate`: what a violation points at, and where the call of its loop stands.
* `UnusedEnumerated.isSettled_iff`: the loops that do not deceive the rule.
* `UnusedEnumerated.mem_offsets_validate_iff`: when none does, the rule reports the loops over enumerated calls whose
  pattern drops one of a pair, and no others.
* `UnusedEnumerated.misreports_where`, `misreports_member` and `misreports_operand`: loops that deceive it.
-/

namespace SourceLint.UnusedEnumerated

variable {context : Context} {severity : Severity} {options : SeverityOptions} {node call : Node} {pattern : Span}
    {token : Token} {lexemes : List Lexeme} {parts : Grammar.LoopParts}

/-! ### Patterns -/

/-- The pattern has two tokens: this one, which is an underscore, and another one, which is not. -/
def Drops (context : Context) (pattern : Span) (token : Token) : Prop :=
  isDropped context token = true ∧ ∃ other, isDropped context other = false ∧
    (context.tokensIn pattern = [token, other] ∨ context.tokensIn pattern = [other, token])

theorem exists_finding?_iff {first last : Token} :
    (∃ reason, finding? context first last = some (token, reason)) ↔
      isDropped context token = true ∧ ∃ other, isDropped context other = false ∧
        ([first, last] = [token, other] ∨ [first, last] = [other, token]) := by
  rw [finding?]
  constructor
  · rintro ⟨reason, h⟩
    split at h
    · rename_i hfirst hlast
      obtain ⟨rfl, -⟩ := Prod.mk.inj (Option.some.inj h)
      exact ⟨hfirst, last, hlast, .inl rfl⟩
    · rename_i hfirst hlast
      obtain ⟨rfl, -⟩ := Prod.mk.inj (Option.some.inj h)
      exact ⟨hlast, first, hfirst, .inr rfl⟩
    · cases h
  · rintro ⟨hdropped, other, hother, hpair | hpair⟩
    · obtain ⟨rfl, rfl⟩ : first = token ∧ last = other := by simpa using hpair
      exact ⟨_, by rw [hdropped, hother]⟩
    · obtain ⟨rfl, rfl⟩ : first = other ∧ last = token := by simpa using hpair
      exact ⟨_, by rw [hdropped, hother]⟩

/-- For a loop the rule reports where the underscore of its pattern stands, if a child is an enumerated call. -/
theorem mem_offsets_iff {offset : Nat} :
    offset ∈ (violations severity context node).map Violation.offset ↔
      node.children.any isEnumeratedCall = true ∧ ∃ pattern, node.elementSpan? .id = some pattern ∧
        ∃ token, Drops context pattern token ∧ token.span.location = offset := by
  rw [violations]
  split
  · rename_i hcall
    simp only [hcall, true_and]
    cases hpattern : node.elementSpan? .id with
    | none => simp
    | some pattern =>
        simp only [Option.map_some, Option.some.injEq, exists_eq_left']
        split
        · rename_i first last htokens
          have hdrops : ∀ token, Drops context pattern token ↔
              ∃ reason, finding? context first last = some (token, reason) := by
            intro token
            rw [exists_finding?_iff, Drops, Option.some.inj htokens]
          simp only [hdrops, List.mem_map, Option.mem_toList, Option.map_eq_some_iff]
          constructor
          · rintro ⟨_, ⟨⟨token, reason⟩, hfinding, rfl⟩, rfl⟩
            exact ⟨token, ⟨reason, hfinding⟩, rfl⟩
          · rintro ⟨token, ⟨reason, hfinding⟩, rfl⟩
            exact ⟨_, ⟨(token, reason), hfinding, rfl⟩, rfl⟩
        · rename_i hlength
          simp only [List.map_nil, List.not_mem_nil, false_iff]
          rintro ⟨token, ⟨-, other, -, hpair | hpair⟩, -⟩
          · exact hlength _ _ (congrArg some hpair)
          · exact hlength _ _ (congrArg some hpair)
  · rename_i hcall
    simp [hcall]

/-- The underscore is a token of the text that lies within the pattern. -/
theorem Drops.mem (h : Drops context pattern token)
    (hsnapshot : Snapshot.ofSource context.source = .ok context.snapshot) :
    token ∈ context.snapshot.tokens.toList ∧ pattern.covers token.span = true := by
  obtain ⟨-, other, -, hpair⟩ := h
  have hmem : token ∈ context.tokensIn pattern := by
    rcases hpair with hpair | hpair <;> simp [hpair]
  have hfilter := TokenStream.tokensIn_eq_filter (Snapshot.ascending_ofSource hsnapshot) pattern
  rw [TokenStream.ofList_toList] at hfilter
  rw [Context.tokensIn, hfilter] at hmem
  exact List.mem_filter.1 hmem

/-! ### Calls -/

/-- The loop goes over an enumerated call: some child is such a call and has the span of the sequence. -/
def iterates (node : Node) : Bool :=
  node.children.any fun child => isEnumeratedCall child && node.elementSpan? .expr == some child.span

/-- Where a call stands in a loop: it is the sequence, it lies within the sequence and something of it is left, or it
stands behind the `where` behind the sequence. -/
inductive IsPlaced (lexemes : List Lexeme) (parts : Grammar.LoopParts) (call : Node) : Prop
  | whole (same : call.span = parts.sequence)
  | part (within : parts.sequence.covers call.span = true) (shorter : call.span.length < parts.sequence.length)
  | condition (x : Lexeme) (mem : x ∈ lexemes) (isWhere : x.isKeyword "where" = true)
      (before : parts.sequence.stop ≤ x.start) (behind : x.stop ≤ call.span.location)

theorem elementSpan?_expr (h : parts.Make lexemes node) : node.elementSpan? .expr = some parts.sequence := by
  rw [Node.elementSpan?, h.elements]
  rfl

theorem elementSpan?_id (h : parts.Make lexemes node) : node.elementSpan? .id = some parts.pattern := by
  rw [Node.elementSpan?, h.elements]
  rfl

theorem kind_of_isEnumeratedCall (h : isEnumeratedCall node = true) : node.kind = .call := by
  rw [isEnumeratedCall, Bool.and_eq_true, beq_iff_eq] at h
  exact h.1

/-- The body of a loop is no call, so an enumerated call is in its sequence or in its condition. -/
theorem mem_children_iff (h : parts.Make lexemes node) (hcall : isEnumeratedCall call = true) :
    call ∈ node.children ↔ call ∈ parts.nodes ∨ call ∈ parts.condition := by
  have hbody : call ≠ parts.body := by
    rintro rfl
    cases (kind_of_isEnumeratedCall hcall).symm.trans h.body
  rw [h.children]
  simp [hbody]

/-- A node of the sequence is all of it, or something of it is left. -/
theorem covers_of_mem_nodes (h : parts.Make lexemes node) (hcall : call ∈ parts.nodes) :
    parts.sequence.covers call.span = true ∧
      (call.span = parts.sequence ∨ call.span.length < parts.sequence.length) := by
  obtain ⟨hbegins, hends, -⟩ := h.arranged.of_mem_listingAll (Node.mem_listingAll_of_mem hcall)
  rw [Span.covers, Bool.and_eq_true, decide_eq_true_eq, decide_eq_true_eq]
  refine ⟨⟨hbegins, hends⟩, ?_⟩
  by_cases hshorter : call.span.length < parts.sequence.length
  · exact .inr hshorter
  · obtain ⟨hlocation, hlength⟩ : call.span.location = parts.sequence.location ∧
        call.span.length = parts.sequence.length := by
      simp only [Span.stop] at hends
      omega
    exact .inl (congrArg₂ Span.mk hlocation hlength)

/-- A node of the condition is not the sequence. -/
theorem ne_of_mem_condition (h : parts.Make lexemes node) (hcall : call ∈ parts.condition) :
    call.span ≠ parts.sequence := by
  obtain ⟨x, -, hwhere, hbefore, hbehind⟩ := h.condition call (Node.mem_listingAll_of_mem hcall)
  have hstop : x.start < x.stop := by
    rw [Lexeme.isKeyword, Bool.and_eq_true, beq_iff_eq, beq_iff_eq] at hwhere
    rw [Lexeme.stop, hwhere.2]
    exact Nat.lt_add_of_pos_right (by decide)
  intro hsame
  rw [hsame] at hbehind
  simp only [Span.stop] at hbefore
  omega

/-- An enumerated call among the children of a loop is in one of the three places. -/
theorem isPlaced_of_mem (h : parts.Make lexemes node) (hmem : call ∈ node.children)
    (hcall : isEnumeratedCall call = true) : IsPlaced lexemes parts call := by
  rcases (mem_children_iff h hcall).1 hmem with hnodes | hcondition
  · obtain ⟨hwithin, hsame | hshorter⟩ := covers_of_mem_nodes h hnodes
    · exact .whole hsame
    · exact .part hwithin hshorter
  · obtain ⟨x, hx, hwhere, hbefore, hbehind⟩ := h.condition call (Node.mem_listingAll_of_mem hcondition)
    exact .condition x hx hwhere hbefore hbehind

/-! ### Loops -/

/-- The loop does not deceive the rule: a child that is an enumerated call is the sequence. -/
def IsSettled (node : Node) : Prop :=
  ∀ call ∈ node.children, isEnumeratedCall call = true → node.elementSpan? .expr = some call.span

/-- A loop does not deceive the rule when no enumerated call is a part of its sequence and none is in its
condition. -/
theorem isSettled_iff (h : parts.Make lexemes node) :
    IsSettled node ↔
      (∀ call ∈ parts.nodes, isEnumeratedCall call = true → parts.sequence.length ≤ call.span.length) ∧
        ∀ call ∈ parts.condition, isEnumeratedCall call = false := by
  rw [IsSettled, elementSpan?_expr h]
  constructor
  · intro hsettled
    constructor
    · intro call hmem hcall
      exact Option.some.inj (hsettled call ((mem_children_iff h hcall).2 (.inl hmem)) hcall) ▸ Nat.le_refl _
    · intro call hmem
      by_contra hcall
      rw [Bool.not_eq_false] at hcall
      have hsame := hsettled call ((mem_children_iff h hcall).2 (.inr hmem)) hcall
      exact ne_of_mem_condition h hmem (Option.some.inj hsame).symm
  · rintro ⟨hnodes, hcondition⟩ call hmem hcall
    rcases (mem_children_iff h hcall).1 hmem with hmem | hmem
    · obtain ⟨-, hsame | hshorter⟩ := covers_of_mem_nodes h hmem
      · rw [hsame]
      · have hlength := hnodes call hmem hcall
        omega
    · rw [hcondition call hmem] at hcall
      cases hcall

theorem any_eq_iterates (h : IsSettled node) : node.children.any isEnumeratedCall = iterates node := by
  rw [iterates, Bool.eq_iff_iff, List.any_eq_true, List.any_eq_true]
  refine exists_congr fun call => and_congr_right fun hmem => ?_
  rw [Bool.and_eq_true, beq_iff_eq]
  exact ⟨fun hcall => ⟨hcall, h call hmem hcall⟩, And.left⟩

theorem mem_validate_iff {v : Violation} :
    v ∈ (rule options).validate context ↔
      ∃ node ∈ Node.listingAll context.snapshot.forest, node.kind = .forEach ∧
        v ∈ violations options.severity context node := by
  have hvalidate : (rule options).validate context =
      ((Node.preOrder context.snapshot.forest).filter fun node =>
        [NodeKind.forEach].contains node.kind).flatMap (violations options.severity context) := rfl
  rw [hvalidate, Node.preOrder_eq_listingAll, List.mem_flatMap]
  simp only [List.mem_filter, List.contains_eq_mem, List.mem_singleton, decide_eq_true_eq, and_assoc]

theorem mem_offsets_validate {offset : Nat} :
    offset ∈ ((rule options).validate context).map Violation.offset ↔
      ∃ node ∈ Node.listingAll context.snapshot.forest, node.kind = .forEach ∧
        offset ∈ (violations options.severity context node).map Violation.offset := by
  simp only [List.mem_map, mem_validate_iff]
  constructor
  · rintro ⟨v, ⟨node, hnode, hkind, hv⟩, rfl⟩
    exact ⟨node, hnode, hkind, v, hv, rfl⟩
  · rintro ⟨node, hnode, hkind, v, hv, rfl⟩
    exact ⟨v, ⟨node, hnode, hkind, hv⟩, rfl⟩

section

variable (hsnapshot : Snapshot.ofSource context.source = .ok context.snapshot)
  (hlexemes : Lexeme.ofSource context.source = .ok lexemes)

include hsnapshot hlexemes

/-- A violation is about a loop over a sequence. It points at an underscore in the pattern of the loop, and a child
of the loop is an enumerated call, which is the sequence, a part of it, or behind a `where`. -/
theorem exists_loop_of_mem_validate {v : Violation} (hv : v ∈ (rule options).validate context) :
    ∃ node ∈ Node.listingAll context.snapshot.forest, ∃ parts : Grammar.LoopParts,
      parts.Make (Lexeme.significant "" lexemes) node ∧
      (∃ token ∈ context.snapshot.tokens.toList, token.kind = .keyword ∧
        token.span.slice? context.source = some "_" ∧ parts.pattern.covers token.span = true ∧
        v.offset = token.span.location) ∧
      ∃ call ∈ node.children, isEnumeratedCall call = true ∧
        IsPlaced (Lexeme.significant "" lexemes) parts call := by
  obtain ⟨node, hnode, hkind, hv⟩ := mem_validate_iff.1 hv
  obtain ⟨parts, hparts⟩ := Snapshot.exists_make_of_ofSource hsnapshot hlexemes hnode hkind
  obtain ⟨hany, pattern, hpattern, token, hdrops, hoffset⟩ := mem_offsets_iff.1 (List.mem_map_of_mem hv)
  obtain ⟨call, hcall, hname⟩ := List.any_eq_true.1 hany
  obtain rfl := Option.some.inj ((elementSpan?_id hparts).symm.trans hpattern)
  obtain ⟨htoken, hcovers⟩ := hdrops.mem hsnapshot
  have hdropped := hdrops.1
  simp only [isDropped, Bool.and_eq_true, beq_iff_eq] at hdropped
  exact ⟨node, hnode, parts, hparts, ⟨token, htoken, hdropped.1.1, hdropped.2, hcovers, hoffset.symm⟩, call, hcall,
    hname, isPlaced_of_mem hparts hcall hname⟩

end

/-- A loop over an enumerated call is reported when its pattern drops one of a pair. -/
theorem mem_offsets_validate_of_iterates (hnode : node ∈ Node.listingAll context.snapshot.forest)
    (hkind : node.kind = .forEach) (hiterates : iterates node = true)
    (hpattern : node.elementSpan? .id = some pattern) (hdrops : Drops context pattern token) :
    token.span.location ∈ ((rule options).validate context).map Violation.offset := by
  refine mem_offsets_validate.2 ⟨node, hnode, hkind, mem_offsets_iff.2 ⟨?_, pattern, hpattern, token, hdrops, rfl⟩⟩
  obtain ⟨call, hcall, hname⟩ := List.any_eq_true.1 hiterates
  exact List.any_eq_true.2 ⟨call, hcall, (Bool.and_eq_true _ _ ▸ hname).1⟩

/-- When no loop deceives it, the rule reports the loops over enumerated calls whose pattern drops one of a pair,
where the underscore stands, and no others. -/
theorem mem_offsets_validate_iff
    (hsettled : ∀ node ∈ Node.listingAll context.snapshot.forest, node.kind = .forEach → IsSettled node)
    {offset : Nat} :
    offset ∈ ((rule options).validate context).map Violation.offset ↔
      ∃ node ∈ Node.listingAll context.snapshot.forest, node.kind = .forEach ∧ iterates node = true ∧
        ∃ pattern, node.elementSpan? .id = some pattern ∧
          ∃ token, Drops context pattern token ∧ token.span.location = offset := by
  constructor
  · intro h
    obtain ⟨node, hnode, hkind, hoffset⟩ := mem_offsets_validate.1 h
    obtain ⟨hany, hdropped⟩ := mem_offsets_iff.1 hoffset
    rw [any_eq_iterates (hsettled node hnode hkind)] at hany
    exact ⟨node, hnode, hkind, hany, hdropped⟩
  · rintro ⟨node, hnode, hkind, hiterates, pattern, hpattern, token, hdrops, rfl⟩
    exact mem_offsets_validate_of_iterates hnode hkind hiterates hpattern hdrops

/-! ### Loops that deceive the rule -/

/-- The rule reports a loop at the offset, and no loop of the text goes over an enumerated call. -/
def Misreports (source : String) (offset : Nat) : Prop :=
  ∃ snapshot, Snapshot.ofSource source = .ok snapshot ∧
    ((rule {}).validate { source, snapshot }).map Violation.offset = [offset] ∧
    (Node.listingAll snapshot.forest).any iterates = false

theorem misreports_of {source : String} {offset : Nat}
    (h : ((Snapshot.ofSource source).toOption.any fun snapshot =>
      ((rule {}).validate { source, snapshot }).map Violation.offset == [offset] &&
        !(Node.listingAll snapshot.forest).any iterates) = true) :
    Misreports source offset := by
  obtain ⟨snapshot, hsnapshot, hfound⟩ := exists_of_toOption_any h
  rw [Bool.and_eq_true, beq_iff_eq, Bool.not_eq_true'] at hfound
  exact ⟨snapshot, hsnapshot, hfound⟩

/-- The enumerated call is in the condition of the loop. -/
theorem misreports_where : Misreports "for (_, a) in b where c.enumerated() \x7b\x7d" 5 :=
  misreports_of (by decide +kernel)

/-- The loop goes over a member of what the enumerated call gives. -/
theorem misreports_member : Misreports "for (_, a) in b.enumerated().c \x7b\x7d" 5 :=
  misreports_of (by decide +kernel)

/-- The enumerated call is an operand. -/
theorem misreports_operand : Misreports "for (_, a) in b + c.enumerated() \x7b\x7d" 5 :=
  misreports_of (by decide +kernel)

end SourceLint.UnusedEnumerated
