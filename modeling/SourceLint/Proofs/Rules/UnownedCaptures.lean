import SourceLint.Proofs.Grammar.Closures
import SourceLint.Proofs.Linter.Dispatching
import SourceLint.Rules.UnownedVariableCapture

/-!
# Unowned captures are reported once

The rule takes the part of a closure before the first `in` of its body for the capture list. Where that is
so, it reports each unowned capture once and nothing else. It is not so for a closure without a signature
that has an `in` inside, and for a captured value with an `in` of its own.

## Main results

* `UnownedVariableCapture.offsets_validate`: the offsets that the rule reports, when no closure deceives it.
* `UnownedVariableCapture.reportsAt_nested`, `reportsAt_value` and `reportsAt_loop`: closures that do.
-/

namespace SourceLint.UnownedVariableCapture

variable {context : Context} {node inner : Node} {captures : List Node} {signature : Option Nat}
    {modifier : Attribute} {span : Span}

/-- The `unowned` of a variable. -/
def unowned? (context : Context) (node : Node) : Option Attribute :=
  node.attributes.find? (isUnowned context)

theorem unownedWithin?_eq_some_iff :
    unownedWithin? context span node = some modifier ↔
      node.kind = .varLocal ∧ span.covers node.span = true ∧ unowned? context node = some modifier := by
  rw [unownedWithin?, unowned?]
  split
  · rename_i h
    rw [Bool.and_eq_true, beq_iff_eq] at h
    simp [h]
  · rename_i h
    rw [Bool.and_eq_true, beq_iff_eq] at h
    simp_all

/-- The rule is not deceived by a closure: the first `in` of the body is the one that ends the signature,
and no captured value declares a variable; or there is no signature, and the rule finds nothing. -/
inductive Settled (context : Context) (node : Node) (captures : List Node) : Option Nat → Prop
  | signed {body : Span} {s : Nat} (hbody : node.body = some body)
      (hspan : captureSpan? context body = some (.ofBounds body.location s))
      (hbelow : ∀ inner ∈ Node.listingAll (captures.flatMap Node.children),
        inner.kind = .varLocal → unowned? context inner = none) :
      Settled context node captures (some s)
  | unsigned (hcaptures : ∀ capture ∈ captures, unowned? context capture = none)
      (hnothing : ∀ span, node.body.bind (captureSpan? context) = some span →
        ∀ inner ∈ Node.listingAll context.snapshot.forest, unownedWithin? context span inner = none) :
      Settled context node captures none

/-! ### One closure -/

/-- The modifiers that the rule reports for a closure. -/
def reported (context : Context) (node : Node) : List Attribute :=
  match node.body.bind (captureSpan? context) with
  | some span => (Node.levels context.snapshot.forest).filterMap (unownedWithin? context span)
  | none => []

theorem violations_eq (severity : Severity) :
    violations severity context node = (reported context node).map (violation severity) := by
  rw [violations, reported]
  cases node.body.bind (captureSpan? context) with
  | some span => rfl
  | none => rfl

theorem mem_reported_iff :
    modifier ∈ reported context node ↔ ∃ span, node.body.bind (captureSpan? context) = some span ∧
      ∃ inner ∈ Node.listingAll context.snapshot.forest,
        unownedWithin? context span inner = some modifier := by
  rw [reported]
  split
  · rename_i span hspan
    simp [hspan, (Node.levels_perm_listingAll _).mem_iff]
  · rename_i hnone
    simp [hnone]

/-- What is below a closure is a capture or below one, or a parameter, or in the statements. -/
theorem below_cases (hshape : Grammar.ClosureShape node captures signature)
    (hinner : inner ∈ Node.listingAll node.children) :
    inner ∈ captures ∨ inner ∈ Node.listingAll (captures.flatMap Node.children) ∨
      inner.kind = .varParameter ∨ ∀ s ∈ signature, s < inner.span.location := by
  obtain ⟨parameters, statements, hchildren, hparameters, hstatements⟩ := hshape.children
  rw [hchildren, Node.listingAll_append, Node.listingAll_append, List.mem_append, List.mem_append] at hinner
  rcases hinner with (hinner | hinner) | hinner
  · exact (Node.mem_listingAll_iff.1 hinner).imp_right .inl
  · have hleaves : parameters.flatMap Node.children = [] :=
      List.flatMap_eq_nil_iff.2 fun parameter h => (hparameters parameter h).2
    rw [Node.mem_listingAll_iff, hleaves, Node.listingAll_nil] at hinner
    rcases hinner with hinner | hinner
    · exact .inr (.inr (.inl (hparameters inner hinner).1))
    · cases hinner
  · exact .inr (.inr (.inr fun s hs => hstatements s hs inner hinner))

variable {start stop : Nat}

/-- What the rule takes for a capture is one. -/
theorem mem_captures_of_within (harranged : Node.Arranged start stop context.snapshot.forest)
    (hnode : node ∈ Node.listingAll context.snapshot.forest)
    (hshape : Grammar.ClosureShape node captures signature)
    (hsettled : Settled context node captures signature)
    (hspan : node.body.bind (captureSpan? context) = some span)
    (hinner : inner ∈ Node.listingAll context.snapshot.forest)
    (hwithin : unownedWithin? context span inner = some modifier) : inner ∈ captures := by
  cases hsettled with
  | unsigned hcaptures hnothing =>
      rw [hnothing span hspan inner hinner] at hwithin
      cases hwithin
  | @signed body s hbody hsigned hbelow =>
      obtain ⟨hkind, hcovers, hunowned⟩ := unownedWithin?_eq_some_iff.1 hwithin
      rw [hbody, Option.bind_some, hsigned] at hspan
      obtain rfl := Option.some.inj hspan
      obtain ⟨hstop, hbegins, -⟩ := hshape.signature s rfl
      rw [Span.covers, Span.stop_ofBounds (hbegins body hbody), Bool.and_eq_true, decide_eq_true_eq,
        decide_eq_true_eq, Span.location_ofBounds] at hcovers
      have hlocation := (hshape.body body hbody).1
      have hle := inner.span_location_le_stop
      have hinside := harranged.mem_children_of_within hnode hinner (by omega) (by omega)
      rcases below_cases hshape hinside with h | h | h | h
      · exact h
      · rw [hbelow inner h hkind] at hunowned
        cases hunowned
      · rw [hkind] at h
        cases h
      · have hbehind := h s rfl
        omega

/-- The rule takes an unowned capture for one. -/
theorem within_of_mem_captures (hshape : Grammar.ClosureShape node captures signature)
    (hsettled : Settled context node captures signature) (hinner : inner ∈ captures)
    (hunowned : unowned? context inner = some modifier) :
    ∃ span, node.body.bind (captureSpan? context) = some span ∧
      unownedWithin? context span inner = some modifier := by
  cases hsettled with
  | unsigned hcaptures hnothing =>
      rw [hcaptures inner hinner] at hunowned
      cases hunowned
  | @signed body s hbody hsigned hbelow =>
      obtain ⟨-, hbegins, hends⟩ := hshape.signature s rfl
      have hspan : node.body.bind (captureSpan? context) = some (.ofBounds body.location s) := by
        rw [hbody, Option.bind_some, hsigned]
      refine ⟨_, hspan, unownedWithin?_eq_some_iff.2 ⟨?_, ?_, hunowned⟩⟩
      · exact (hshape.isCapture inner hinner).kind
      · rw [Span.covers, Span.stop_ofBounds (hbegins body hbody), Bool.and_eq_true, decide_eq_true_eq,
          decide_eq_true_eq, Span.location_ofBounds]
        exact ⟨(hshape.body body hbody).2 inner hinner, hends inner hinner⟩

/-- For a closure the rule reports its unowned captures. -/
theorem mem_reported_iff_captures (harranged : Node.Arranged start stop context.snapshot.forest)
    (hnode : node ∈ Node.listingAll context.snapshot.forest)
    (hshape : Grammar.ClosureShape node captures signature)
    (hsettled : Settled context node captures signature) :
    modifier ∈ reported context node ↔
      ∃ capture ∈ captures, unowned? context capture = some modifier := by
  rw [mem_reported_iff]
  constructor
  · rintro ⟨span, hspan, inner, hinner, hwithin⟩
    exact ⟨inner, mem_captures_of_within harranged hnode hshape hsettled hspan hinner hwithin,
      (unownedWithin?_eq_some_iff.1 hwithin).2.2⟩
  · rintro ⟨capture, hcapture, hunowned⟩
    obtain ⟨span, hspan, hwithin⟩ := within_of_mem_captures hshape hsettled hcapture hunowned
    refine ⟨span, hspan, capture, Node.mem_listingAll_of_below hnode ?_, hwithin⟩
    obtain ⟨parameters, statements, hchildren, -⟩ := hshape.children
    rw [hchildren, List.append_assoc]
    exact Node.mem_listingAll_of_mem (List.mem_append_left _ hcapture)

/-- The modifier of an unowned capture stands where the capture begins. -/
theorem location_of_unowned (hshape : Grammar.ClosureShape node captures signature)
    (hinner : inner ∈ captures) (hunowned : unowned? context inner = some modifier) :
    modifier.span.location = inner.span.location :=
  (hshape.isCapture inner hinner).attributes modifier (List.mem_of_find?_eq_some hunowned)

/-- For a closure the rule reports nothing twice. -/
theorem nodup_reported (harranged : Node.Arranged start stop context.snapshot.forest)
    (hnode : node ∈ Node.listingAll context.snapshot.forest)
    (hshape : Grammar.ClosureShape node captures signature)
    (hsettled : Settled context node captures signature) :
    ((reported context node).map fun modifier => modifier.span.location).Nodup := by
  rw [reported]
  split
  · rename_i span hspan
    have hperm := (Node.levels_perm_listingAll context.snapshot.forest).filterMap
      (unownedWithin? context span)
    refine (hperm.map _).nodup_iff.2 ?_
    rw [List.nodup_iff_pairwise_ne, List.pairwise_map, List.pairwise_filterMap]
    refine harranged.pairwise_listingAll.imp_of_mem ?_
    intro first second hfirst hsecond hapart modifier hmodifier other hother
    have hcapture := mem_captures_of_within harranged hnode hshape hsettled hspan hfirst hmodifier
    have hcapture' := mem_captures_of_within harranged hnode hshape hsettled hspan hsecond hother
    rw [location_of_unowned hshape hcapture (unownedWithin?_eq_some_iff.1 hmodifier).2.2,
      location_of_unowned hshape hcapture' (unownedWithin?_eq_some_iff.1 hother).2.2]
    refine Nat.ne_of_lt ?_
    rcases hapart with hbelow | hbehind
    · exact (hshape.isCapture first hcapture).below second hbelow
    · exact Nat.lt_of_lt_of_le (hshape.isCapture first hcapture).nonempty hbehind
  · exact List.nodup_nil

/-! ### Two closures -/

/-- An unowned capture stands before the `in` of the signature and behind the opening brace. -/
theorem capture_between (hshape : Grammar.ClosureShape node captures signature)
    (hsettled : Settled context node captures signature) (hinner : inner ∈ captures)
    (hunowned : unowned? context inner = some modifier) :
    ∃ s ∈ signature, node.span.location < inner.span.location ∧ inner.span.stop ≤ s ∧
      s < node.span.stop ∧ ∀ below ∈ Node.listingAll (captures.flatMap Node.children),
        below.kind = .varLocal → unowned? context below = none := by
  cases hsettled with
  | unsigned hcaptures hnothing =>
      rw [hcaptures inner hinner] at hunowned
      cases hunowned
  | @signed body s hbody hsigned hbelow =>
      obtain ⟨hstop, -, hends⟩ := hshape.signature s rfl
      obtain ⟨hlocation, hbegins⟩ := hshape.body body hbody
      have hbehind := Nat.lt_of_lt_of_le hlocation (hbegins inner hinner)
      exact ⟨s, rfl, hbehind, hends inner hinner, hstop, hbelow⟩

/-- Unowned captures of two closures stand at different places. -/
theorem location_ne {node' inner' : Node} {captures' : List Node} {signature' : Option Nat}
    {modifier' : Attribute} (hapart : node' ∈ Node.listingAll node.children ∨
      node.span.stop ≤ node'.span.location)
    (hshape : Grammar.ClosureShape node captures signature)
    (hsettled : Settled context node captures signature) (hinner : inner ∈ captures)
    (hunowned : unowned? context inner = some modifier)
    (hshape' : Grammar.ClosureShape node' captures' signature')
    (hsettled' : Settled context node' captures' signature') (hinner' : inner' ∈ captures')
    (hunowned' : unowned? context inner' = some modifier') :
    inner.span.location ≠ inner'.span.location := by
  obtain ⟨s, hs, hlocation, hends, hstop, hnone⟩ := capture_between hshape hsettled hinner hunowned
  obtain ⟨_, -, hlocation', -⟩ := capture_between hshape' hsettled' hinner' hunowned'
  have hnonempty := (hshape.isCapture inner hinner).nonempty
  intro hsame
  rcases hapart with hbelow | hbehind
  · rcases below_cases hshape hbelow with h | h | h | h
    · have hkind := (hshape.isCapture node' h).kind
      rw [hshape'.kind] at hkind
      cases hkind
    · -- a captured value declares nothing, so the other closure in it has no unowned capture
      obtain ⟨parameters, statements, hchildren, -⟩ := hshape'.children
      have hmem : inner' ∈ Node.listingAll node'.children := by
        rw [hchildren, List.append_assoc]
        exact Node.mem_listingAll_of_mem (List.mem_append_left _ hinner')
      have hkind := (hshape'.isCapture inner' hinner').kind
      rw [hnone inner' (Node.mem_listingAll_of_below h hmem) hkind] at hunowned'
      cases hunowned'
    · rw [hshape'.kind] at h
      cases h
    · have hbehind := h s hs
      omega
  · omega

/-! ### All closures -/

theorem offsets_validate_eq (options : SeverityOptions) :
    ((rule options).validate context).map Violation.offset =
      ((Node.listingAll context.snapshot.forest).filter fun node => node.kind == .closure).flatMap
        fun node => (reported context node).map fun modifier => modifier.span.location := by
  have hvalidate : (rule options).validate context =
      ((Node.preOrder context.snapshot.forest).filter fun node =>
        [NodeKind.closure].contains node.kind).flatMap (violations options.severity context) := rfl
  have hkind : ∀ node : Node, [NodeKind.closure].contains node.kind = (node.kind == .closure) := by
    intro node
    rw [Bool.eq_iff_iff]
    simp
  rw [hvalidate, Node.preOrder_eq_listingAll, List.map_flatMap]
  simp only [hkind, violations_eq, List.map_map]
  rfl

variable {lexemes : List Lexeme}

/-- Every closure of a text has been read, with a capture list and maybe a signature. -/
theorem exists_captures_of_ofSource (hsnapshot : Snapshot.ofSource context.source = .ok context.snapshot)
    (hlexemes : Lexeme.ofSource context.source = .ok lexemes) :
    ∃ (captures : Node → List Node) (signature : Node → Option Nat),
      ∀ node ∈ Node.listingAll context.snapshot.forest, node.kind = .closure →
        Grammar.ReadsCaptures ⟨Lexeme.significant "" lexemes, 0, context.source.utf8ByteSize⟩ node
          (captures node) (signature node) := by
  have hread : ∀ node : Node, ∃ captures signature, node ∈ Node.listingAll context.snapshot.forest →
      node.kind = .closure → Grammar.ReadsCaptures
        ⟨Lexeme.significant "" lexemes, 0, context.source.utf8ByteSize⟩ node captures signature := by
    intro node
    by_cases hnode : node ∈ Node.listingAll context.snapshot.forest ∧ node.kind = .closure
    · obtain ⟨captures, signature, h⟩ := Grammar.exists_readsCaptures
        ((Snapshot.isRead_of_mem hsnapshot hlexemes hnode.1).closure hnode.2)
      exact ⟨captures, signature, fun _ _ => h⟩
    · exact ⟨[], none, fun hmem hkind => absurd ⟨hmem, hkind⟩ hnode⟩
  choose captures signature hcaptures using hread
  exact ⟨captures, signature, hcaptures⟩

/-- When no closure deceives it, the rule reports each unowned capture once, where its `unowned` stands, and
nothing else. -/
theorem offsets_validate (hsnapshot : Snapshot.ofSource context.source = .ok context.snapshot)
    (hlexemes : Lexeme.ofSource context.source = .ok lexemes)
    {captures : Node → List Node} {signature : Node → Option Nat}
    (hclosures : ∀ node ∈ Node.listingAll context.snapshot.forest, node.kind = .closure →
      Grammar.ReadsCaptures ⟨Lexeme.significant "" lexemes, 0, context.source.utf8ByteSize⟩ node
        (captures node) (signature node) ∧ Settled context node (captures node) (signature node))
    (options : SeverityOptions) :
    (((rule options).validate context).map Violation.offset).Nodup ∧
      ∀ offset, offset ∈ ((rule options).validate context).map Violation.offset ↔
        ∃ node ∈ Node.listingAll context.snapshot.forest, node.kind = .closure ∧
          ∃ capture ∈ captures node, ∃ modifier, unowned? context capture = some modifier ∧
            offset = modifier.span.location := by
  obtain ⟨found, forest, hfound, hforest, hparts⟩ := Snapshot.ofSource_eq_ok_iff.1 hsnapshot
  obtain rfl := Except.ok.inj (hfound.symm.trans hlexemes)
  have harranged : Node.Arranged 0 context.source.utf8ByteSize context.snapshot.forest := by
    rw [hparts]
    exact (Snapshot.parts_pass hlexemes hforest).2.2
  have hvalid : (Cursor.mk (Lexeme.significant "" found) 0 context.source.utf8ByteSize).Valid :=
    (Lexeme.inOrder_of_ofSource hlexemes).significant ""
  have hshape : ∀ node ∈ Node.listingAll context.snapshot.forest, node.kind = .closure →
      Grammar.ClosureShape node (captures node) (signature node) := fun node hnode hkind =>
    (hclosures node hnode hkind).1.shape hvalid
  have hsettled := fun node hnode hkind => (hclosures node hnode hkind).2
  have hreported : ∀ node ∈ Node.listingAll context.snapshot.forest, node.kind = .closure →
      ∀ modifier, modifier ∈ reported context node ↔
        ∃ capture ∈ captures node, unowned? context capture = some modifier :=
    fun node hnode hkind _ =>
      mem_reported_iff_captures harranged hnode (hshape node hnode hkind) (hsettled node hnode hkind)
  rw [offsets_validate_eq]
  constructor
  · rw [List.nodup_flatMap]
    constructor
    · intro node hnode
      obtain ⟨hnode, hkind⟩ := List.mem_filter.1 hnode
      exact nodup_reported harranged hnode (hshape node hnode (eq_of_beq hkind))
        (hsettled node hnode (eq_of_beq hkind))
    · refine (harranged.pairwise_listingAll.filter _).imp_of_mem ?_
      intro node node' hnode hnode' hapart
      obtain ⟨hnode, hkind⟩ := List.mem_filter.1 hnode
      obtain ⟨hnode', hkind'⟩ := List.mem_filter.1 hnode'
      have hkind := eq_of_beq hkind
      have hkind' := eq_of_beq hkind'
      intro offset hoffset hoffset'
      obtain ⟨modifier, hmodifier, rfl⟩ := List.mem_map.1 hoffset
      obtain ⟨modifier', hmodifier', hsame⟩ := List.mem_map.1 hoffset'
      obtain ⟨capture, hcapture, hunowned⟩ := (hreported node hnode hkind modifier).1 hmodifier
      obtain ⟨capture', hcapture', hunowned'⟩ := (hreported node' hnode' hkind' modifier').1 hmodifier'
      rw [location_of_unowned (hshape node hnode hkind) hcapture hunowned,
        location_of_unowned (hshape node' hnode' hkind') hcapture' hunowned'] at hsame
      exact location_ne hapart (hshape node hnode hkind) (hsettled node hnode hkind) hcapture hunowned
        (hshape node' hnode' hkind') (hsettled node' hnode' hkind') hcapture' hunowned' hsame.symm
  · intro offset
    simp only [List.mem_flatMap, List.mem_filter, List.mem_map, beq_iff_eq]
    constructor
    · rintro ⟨node, ⟨hnode, hkind⟩, modifier, hmodifier, rfl⟩
      obtain ⟨capture, hcapture, hunowned⟩ := (hreported node hnode hkind modifier).1 hmodifier
      exact ⟨node, hnode, hkind, capture, hcapture, modifier, hunowned, rfl⟩
    · rintro ⟨node, hnode, hkind, capture, hcapture, modifier, hunowned, rfl⟩
      exact ⟨node, ⟨hnode, hkind⟩, modifier,
        (hreported node hnode hkind modifier).2 ⟨capture, hcapture, hunowned⟩, rfl⟩

/-! ### Closures that deceive the rule -/

/-- The rule reports these offsets on a text. -/
def ReportsAt (source : String) (offsets : List Nat) : Prop :=
  ∃ snapshot, Snapshot.ofSource source = .ok snapshot ∧
    ((rule {}).validate { source, snapshot }).map Violation.offset = offsets

theorem reportsAt_of {source : String} {offsets : List Nat}
    (h : ((Snapshot.ofSource source).toOption.any fun snapshot =>
      ((rule {}).validate { source, snapshot }).map Violation.offset == offsets) = true) :
    ReportsAt source offsets := by
  obtain ⟨snapshot, hsnapshot, hoffsets⟩ := exists_of_toOption_any h
  exact ⟨snapshot, hsnapshot, eq_of_beq hoffsets⟩

/-- A closure without a signature takes the `in` of the closure inside it for its own. -/
theorem reportsAt_nested : ReportsAt "foo \x7b bar \x7b [unowned self] in x \x7d \x7d" [13, 13] :=
  reportsAt_of (by decide +kernel)

/-- A captured value has an `in` of its own, and the captures behind it are not reported. -/
theorem reportsAt_value : ReportsAt "f \x7b [a = g \x7b x in x \x7d, unowned b] in b \x7d" [] :=
  reportsAt_of (by decide +kernel)

/-- A closure without a signature takes the `in` of a loop for its own, and a declaration before the loop is
reported. -/
theorem reportsAt_loop : ReportsAt "f \x7b unowned let x = y; for a in b \x7b\x7d \x7d" [4] :=
  reportsAt_of (by decide +kernel)

end SourceLint.UnownedVariableCapture
