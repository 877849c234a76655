import SourceLint.Grammar.Declaration
import SourceLint.Proofs.Grammar.Reading

/-!
# Nodes that are well formed

A node is put together from offsets that a production has kept: where a lexeme begins or ends that it has taken.
So the spans of the node and of its parts begin and end with lexemes, the spans of its name, its body and its
elements lie within its own, its body is between two delimiters that fit, and its name is in the text under the
span of the name. What may be a direct child of a node is said by the kinds of both.

## Main definitions

* `NodeKind.mayHold` — which kinds may stand directly below which.
* `Node.WellFormed` — what is said above of a node, with the lexemes of the text that its offsets are from.
* `Forms` — what a production does: it moves ahead, and its nodes and all nodes below are well formed.

## Implementation notes

A production makes a node between two cursors, and there the parts of the node are known by the lexemes taken in
between (`Node.LiesBetween`). A trailing closure is added to a call that has been made before, so `Node.WellFormed`
speaks of offsets and not of the two cursors.
-/

namespace SourceLint

/-! ### Kinds -/

namespace NodeKind

/-- The node declares a type. -/
def isType : NodeKind → Bool
  | classType | structType | enumType | extensionType | protocolType => true
  | _ => false

def isFunction : NodeKind → Bool
  | functionFree | functionMethod => true
  | _ => false

/-- The node may be part of an expression. -/
def isExpression : NodeKind → Bool
  | call | array | dictionary | closure => true
  | _ => false

/-- The name of the node may be made from several lexemes. -/
def joinsName (kind : NodeKind) : Bool := kind == call || kind.isType

end NodeKind

/-- The kinds of nodes that statements in a scope may have. -/
def Scope.admits (scope : Scope) (kind : NodeKind) : Bool :=
  kind.isExpression || kind.isType || kind == scope.variableKind || kind == scope.functionKind ||
    [.brace, .forEach, .whileLoop, .repeatWhile, .ifStatement, .guardStatement, .switchStatement].contains kind

/-- The kinds of nodes that may stand directly below a node. -/
def NodeKind.mayHold : (parent child : NodeKind) → Bool
  | .brace, child | .caseClause, child => Scope.functionBody.admits child
  | .classType, child | .structType, child | .enumType, child | .extensionType, child
  | .protocolType, child => Scope.typeBody.admits child
  | .functionFree, child | .functionMethod, child | .closure, child =>
    child == .varParameter || Scope.functionBody.admits child
  | .varGlobal, child | .varInstance, child | .varLocal, child | .forEach, child | .whileLoop, child
  | .repeatWhile, child | .guardStatement, child => child.isExpression || child == .brace
  | .ifStatement, child => child.isExpression || child == .brace || child == .ifStatement
  | .switchStatement, child => child.isExpression || child == .caseClause
  | .call, child | .array, child | .dictionary, child | .varParameter, child => child.isExpression

/-- What is not there has any property. -/
theorem forall_of_eq_none {α : Type} {P : α → Prop} {o : Option α} (h : o = none) : ∀ a, o = some a → P a :=
  fun a ha => (Option.some_ne_none a (ha.symm.trans h)).elim

/-! ### Lexemes between cursors -/

namespace Cursor

variable {start c middle later last : Cursor} {x : Lexeme} {span : Span}

/-- The lexeme is one of those that are taken between the cursors. -/
def Takes (c later : Cursor) (x : Lexeme) : Prop :=
  ∃ before, c.Reaches before ∧ before.peek? = some x ∧ before.advance.Reaches later

theorem Takes.next (hpeek : c.peek? = some x) (h : c.advance.Reaches later) : c.Takes later x :=
  ⟨c, .refl c, hpeek, h⟩

theorem Takes.of_reaches (h : c.Reaches middle) (hx : middle.Takes later x) : c.Takes later x := by
  obtain ⟨before, hbefore, hpeek, hlater⟩ := hx
  exact ⟨before, h.trans hbefore, hpeek, hlater⟩

theorem Takes.trans_reaches (hx : c.Takes middle x) (h : middle.Reaches later) : c.Takes later x := by
  obtain ⟨before, hbefore, hpeek, hmiddle⟩ := hx
  exact ⟨before, hbefore, hpeek, hmiddle.trans h⟩

theorem Takes.mem (hc : start.Reaches c) (hx : c.Takes later x) : x ∈ start.ahead := by
  obtain ⟨before, hbefore, hpeek, -⟩ := hx
  obtain ⟨ahead, hahead⟩ := peek?_eq_some_iff.1 hpeek
  exact (hc.trans hbefore).mem_of_mem_ahead (hahead ▸ List.mem_cons_self)

theorem Takes.here_le (hc : c.Valid) (hx : c.Takes later x) : c.here ≤ x.start := by
  obtain ⟨before, hbefore, hpeek, -⟩ := hx
  rw [← here_of_peek? hpeek]
  exact hbefore.here_le hc

theorem Takes.le_lastStop (hc : c.Valid) (hx : c.Takes later x) : x.stop ≤ later.lastStop := by
  obtain ⟨before, hbefore, hpeek, hlater⟩ := hx
  rw [← lastStop_advance_of_peek? hpeek]
  exact hlater.lastStop_le (hbefore.valid hc).advance

theorem Passes.exists_next (h : c.Passes later) : ∃ x, c.peek? = some x ∧ c.advance.Reaches later := by
  obtain ⟨⟨n, rfl⟩, hlength⟩ := h
  cases n with
  | zero => exact absurd hlength (Nat.lt_irrefl _)
  | succ n =>
      obtain ⟨x, ahead, hahead⟩ := List.exists_cons_of_length_pos (Nat.zero_lt_of_lt hlength)
      exact ⟨x, peek?_eq_some_iff.2 ⟨ahead, hahead⟩, .advanceBy c.advance n⟩

theorem Passes.exists_last (h : c.Passes later) :
    ∃ before x, c.Reaches before ∧ before.peek? = some x ∧ later = before.advance := by
  obtain ⟨n, hn, rfl⟩ := reaches_iff.1 h.1
  cases n with
  | zero => exact absurd h.2 (Nat.lt_irrefl _)
  | succ n =>
      refine ⟨c.advanceBy n, c.ahead[n], .advanceBy c n, ?_, advanceBy_add c n 1⟩
      rw [peek?, ahead_advanceBy, List.head?_drop, List.getElem?_eq_getElem hn]

theorem meets_expectSymbol_next (c : Cursor) (text : String) (what : Expectation) :
    (c.expectSymbol text what).Meets fun r =>
      c.peek? = some r.1 ∧ r.1.isSymbol text = true ∧ r.2 = c.advance := by
  rw [expectSymbol]
  split
  · rename_i lexeme hpeek
    split
    · rename_i hsymbol
      exact ⟨hpeek, hsymbol, rfl⟩
    · exact Outcome.meets_expected _ _
  · exact Outcome.meets_expected _ _

theorem meets_expectCloser_next (c : Cursor) (text : String) (opener : Lexeme) :
    (c.expectCloser text opener).Meets fun r =>
      c.peek? = some r.1 ∧ r.1.isSymbol text = true ∧ r.2 = c.advance := by
  rw [expectCloser]
  split
  · rename_i lexeme hpeek
    split
    · rename_i hsymbol
      exact ⟨hpeek, hsymbol, rfl⟩
    · split
      · exact Outcome.meets_unexpected _
      · exact Outcome.meets_unclosed _
  · exact Outcome.meets_unclosed _

/-! ### Spans between cursors -/

/-- The offset is where a lexeme between the cursors begins or ends. -/
def Borders (c later : Cursor) (offset : Nat) : Prop :=
  ∃ x, c.Takes later x ∧ (offset = x.start ∨ offset = x.stop)

/-- The span begins and ends with lexemes that are taken between the cursors. -/
structure Holds (c later : Cursor) (span : Span) : Prop where
  begins : c.Borders later span.location
  ends : c.Borders later span.stop

theorem Borders.widen {offset : Nat} (h : middle.Borders later offset) (hbefore : c.Reaches middle)
    (hbehind : later.Reaches last) : c.Borders last offset := by
  obtain ⟨x, hx, hoffset⟩ := h
  exact ⟨x, (hx.of_reaches hbefore).trans_reaches hbehind, hoffset⟩

theorem Holds.widen (h : middle.Holds later span) (hbefore : c.Reaches middle)
    (hbehind : later.Reaches last) : c.Holds last span :=
  ⟨h.begins.widen hbefore hbehind, h.ends.widen hbefore hbehind⟩

theorem Borders.bounds {offset : Nat} (hc : c.Valid) (h : c.Borders later offset) :
    c.here ≤ offset ∧ offset ≤ later.lastStop := by
  obtain ⟨x, hx, hoffset⟩ := h
  have hstart := hx.here_le hc
  have hstop := hx.le_lastStop hc
  have hlt : x.start ≤ x.stop := Nat.le_add_right _ _
  omega

theorem Holds.covers (hc : c.Valid) (h : c.Holds later span) :
    (Span.ofBounds c.here later.lastStop).covers span = true := by
  have hbegins := (h.begins.bounds hc).1
  have hends := (h.ends.bounds hc).2
  have hspan : span.location ≤ span.stop := Nat.le_add_right _ _
  rw [Span.covers, Bool.and_eq_true, decide_eq_true_eq, decide_eq_true_eq, Span.location_ofBounds,
    Span.stop_ofBounds (by omega)]
  exact ⟨hbegins, hends⟩

/-- What is between two cursors is between their offsets. -/
theorem Passes.holds (hc : c.Valid) (h : c.Passes later) :
    c.Holds later (.ofBounds c.here later.lastStop) := by
  have hstop := Span.stop_ofBounds (Nat.le_of_lt (h.here_lt_lastStop hc))
  obtain ⟨x, hpeek, hlater⟩ := h.exists_next
  obtain ⟨before, y, hbefore, hlast, rfl⟩ := h.exists_last
  refine ⟨⟨x, .next hpeek hlater, .inl (here_of_peek? hpeek)⟩, y, ⟨before, hbefore, hlast, .refl _⟩, ?_⟩
  rw [hstop, lastStop_advance_of_peek? hlast]
  exact .inr rfl

theorem Takes.holds (hx : c.Takes later x) : c.Holds later x.span :=
  ⟨⟨x, hx, .inl rfl⟩, x, hx, .inr rfl⟩

/-- The offset is where a lexeme ahead begins or ends. -/
def Marks (start : Cursor) (offset : Nat) : Prop := ∃ x ∈ start.ahead, offset = x.start ∨ offset = x.stop

/-- The span begins and ends with lexemes ahead. -/
structure Frames (start : Cursor) (span : Span) : Prop where
  begins : start.Marks span.location
  ends : start.Marks span.stop

theorem Borders.marks {offset : Nat} (hc : start.Reaches c) (h : c.Borders later offset) : start.Marks offset := by
  obtain ⟨x, hx, hoffset⟩ := h
  exact ⟨x, hx.mem hc, hoffset⟩

theorem Holds.frames (hc : start.Reaches c) (h : c.Holds later span) : start.Frames span :=
  ⟨h.begins.marks hc, h.ends.marks hc⟩

end Cursor

/-! ### Parts of a node -/

/-- The span is that between two delimiters that fit, both taken between the cursors. -/
def Cursor.Encloses (c later : Cursor) (span : Span) : Prop :=
  ∃ opener closer, c.Takes later opener ∧ c.Takes later closer ∧ closer.closes opener = true ∧
    opener.stop ≤ closer.start ∧ span = .ofBounds opener.stop closer.start

namespace Node

/-- A node has no name, the name is one lexeme, or it is spelled by the lexemes between two cursors. -/
inductive NamedBetween (c later : Cursor) (node : Node) : Prop where
  | anonymous (hname : node.name = none) (hspan : node.nameSpan = none)
  | word (x : Lexeme) (hx : c.Takes later x) (hkind : node.kind.joinsName = false)
      (hname : node.name = some x.text) (hspan : node.nameSpan = some x.span)
  | joined (first last : Cursor) (hfirst : c.Reaches first) (hpasses : first.Passes last)
      (hlast : last.Reaches later) (hkind : node.kind.joinsName = true)
      (hname : node.name = some (Lexeme.spelling (first.lexemesTo last)))
      (hspan : node.nameSpan = some (.ofBounds first.here last.lastStop))

/-- The parts of a node are between the cursors, and with its whole span the node is. -/
structure LiesBetween (c later : Cursor) (node : Node) : Prop where
  span : node.span = .ofBounds c.here later.lastStop
  named : node.NamedBetween c later
  enclosed : ∀ span, node.body = some span → c.Encloses later span
  elements : ∀ e ∈ node.elements, c.Holds later e.span

/-- The spans of a node and its parts begin and end with lexemes of the text, the parts lie within the node, the
body is between delimiters, the name is in the text, and the children may stand below the node. -/
structure WellFormed (start : Cursor) (node : Node) : Prop where
  framed : start.Frames node.span
  named : ∃ later, node.NamedBetween start later
  nameInside : ∀ span, node.nameSpan = some span → start.Frames span ∧ node.span.covers span = true
  bodyInside : ∀ span, node.body = some span → start.Frames span ∧ node.span.covers span = true
  enclosed : ∀ span, node.body = some span → ∃ opener ∈ start.ahead, ∃ closer ∈ start.ahead,
    closer.closes opener = true ∧ opener.stop ≤ closer.start ∧ span = .ofBounds opener.stop closer.start
  elementsInside : ∀ e ∈ node.elements, start.Frames e.span ∧ node.span.covers e.span = true
  attributesFramed : ∀ a ∈ node.attributes, start.Frames a.span
  placed : ∀ child ∈ node.children, node.kind.mayHold child.kind = true

end Node

section Parts

variable {start c middle later last : Cursor} {node : Node} {span : Span}

theorem Cursor.Encloses.widen (h : middle.Encloses later span) (hbefore : c.Reaches middle)
    (hbehind : later.Reaches last) : c.Encloses last span := by
  obtain ⟨opener, closer, hopener, hcloser, hrest⟩ := h
  exact ⟨opener, closer, (hopener.of_reaches hbefore).trans_reaches hbehind,
    (hcloser.of_reaches hbefore).trans_reaches hbehind, hrest⟩

theorem Cursor.Encloses.holds (h : c.Encloses later span) : c.Holds later span := by
  obtain ⟨opener, closer, hopener, hcloser, -, hle, rfl⟩ := h
  exact ⟨⟨opener, hopener, .inr rfl⟩, closer, hcloser, .inl (Span.stop_ofBounds hle)⟩

/-- A group begins with the next lexeme and ends with one behind it. -/
theorem Cursor.encloses_group {opener closer : Lexeme} (hc : c.Valid) (hpeek : c.peek? = some opener)
    (hcloser : c.advance.Takes later closer) (hcloses : closer.closes opener = true) :
    c.Encloses later (.ofBounds opener.stop closer.start) := by
  obtain ⟨before, hbefore, hpeek', hlater⟩ := hcloser
  have hopener := Takes.next hpeek ((hbefore.trans (.advance before)).trans hlater)
  refine ⟨opener, closer, hopener, ⟨before, (Reaches.advance c).trans hbefore, hpeek', hlater⟩, hcloses, ?_, rfl⟩
  rw [← lastStop_advance_of_peek? hpeek, ← here_of_peek? hpeek']
  exact Nat.le_trans (hbefore.lastStop_le hc.advance) (hbefore.valid hc.advance).lastStop_le_here

theorem Node.NamedBetween.widen (h : node.NamedBetween middle later) (hbefore : c.Reaches middle)
    (hbehind : later.Reaches last) : node.NamedBetween c last := by
  cases h with
  | anonymous hname hspan => exact .anonymous hname hspan
  | word x hx hkind hname hspan =>
      exact .word x ((hx.of_reaches hbefore).trans_reaches hbehind) hkind hname hspan
  | joined first last hfirst hpasses hlast hkind hname hspan =>
      exact .joined first last (hbefore.trans hfirst) hpasses (hlast.trans hbehind) hkind hname hspan

/-- The name of a node that may have a lexeme for its name. -/
theorem Node.namedBetween_of_option {name : Option Lexeme} (hx : ∀ x, name = some x → c.Takes later x)
    (hkind : node.kind.joinsName = false) (hname : node.name = name.map Lexeme.text)
    (hspan : node.nameSpan = name.map Lexeme.span) : node.NamedBetween c later := by
  cases name with
  | none => exact .anonymous hname hspan
  | some x => exact .word x (hx x rfl) hkind hname hspan

theorem Node.NamedBetween.holds (hc : c.Valid) (h : node.NamedBetween c later)
    (hspan : node.nameSpan = some span) : c.Holds later span := by
  cases h with
  | anonymous hname hnone => cases hnone.symm.trans hspan
  | word x hx hkind hname hword =>
      obtain rfl := Option.some.inj (hword.symm.trans hspan)
      exact hx.holds
  | joined first last hfirst hpasses hlast hkind hname hjoined =>
      obtain rfl := Option.some.inj (hjoined.symm.trans hspan)
      exact (hpasses.holds (hfirst.valid hc)).widen hfirst hlast

/-- A node between two cursors whose children may stand below it is well formed. -/
theorem Node.LiesBetween.wellFormed (h : node.LiesBetween c later) (hstart : start.Valid)
    (hc : start.Reaches c) (hpasses : c.Passes later) (hattributes : ∀ a ∈ node.attributes, start.Frames a.span)
    (hplaced : ∀ child ∈ node.children, node.kind.mayHold child.kind = true) :
    node.WellFormed start := by
  have hvalid := hc.valid hstart
  have hinside : ∀ {span}, c.Holds later span → start.Frames span ∧ node.span.covers span = true := by
    intro span hspan
    rw [h.span]
    exact ⟨hspan.frames hc, hspan.covers hvalid⟩
  refine ⟨?_, ⟨later, h.named.widen hc (.refl later)⟩, ?_, ?_, ?_, ?_, hattributes, hplaced⟩
  · rw [h.span]
    exact (hpasses.holds hvalid).frames hc
  · exact fun span hspan => hinside (h.named.holds hvalid hspan)
  · exact fun span hspan => hinside (h.enclosed span hspan).holds
  · intro span hspan
    obtain ⟨opener, closer, hopener, hcloser, hrest⟩ := h.enclosed span hspan
    exact ⟨opener, hopener.mem hc, closer, hcloser.mem hc, hrest⟩
  · exact fun e he => hinside (h.elements e he)

/-- A node stays well formed when it ends with a later lexeme and has more children. -/
theorem Node.WellFormed.extend (h : node.WellFormed start) {stop : Nat} (more : List Node)
    (hle : node.span.stop ≤ stop) (hstop : start.Marks stop)
    (hmore : ∀ child ∈ more, node.kind.mayHold child.kind = true) :
    Node.WellFormed start
      { node with span := .ofBounds node.span.location stop, children := node.children ++ more } := by
  have hspan : (Span.ofBounds node.span.location stop).stop = stop :=
    Span.stop_ofBounds (Nat.le_trans (Nat.le_add_right _ _) hle)
  have hcovers : ∀ {span}, start.Frames span ∧ node.span.covers span = true →
      start.Frames span ∧ (Span.ofBounds node.span.location stop).covers span = true := by
    rintro span ⟨hframes, hcovers⟩
    rw [Span.covers, Bool.and_eq_true, decide_eq_true_eq, decide_eq_true_eq] at hcovers ⊢
    refine ⟨hframes, hcovers.1, ?_⟩
    rw [hspan]
    exact Nat.le_trans hcovers.2 hle
  have hends : start.Marks (Span.ofBounds node.span.location stop).stop := by rwa [hspan]
  refine ⟨⟨h.framed.begins, hends⟩, ?_, fun _ hname => hcovers (h.nameInside _ hname),
    fun _ hbody => hcovers (h.bodyInside _ hbody), h.enclosed, fun e he => hcovers (h.elementsInside e he),
    h.attributesFramed, ?_⟩
  · obtain ⟨later, hnamed⟩ := h.named
    cases hnamed with
    | anonymous hname hnone => exact ⟨later, .anonymous hname hnone⟩
    | word x hx hkind hname hword => exact ⟨later, .word x hx hkind hname hword⟩
    | joined first last hfirst hpasses hlast hkind hname hjoined =>
        exact ⟨later, .joined first last hfirst hpasses hlast hkind hname hjoined⟩
  · intro child hchild
    exact (List.mem_append.1 hchild).elim (h.placed child) (hmore child)

end Parts

/-! ### What productions form -/

/-- The cursor moves ahead, the nodes are of the kinds that are admitted, and they and all nodes below them are
well formed. -/
structure Forms (start : Cursor) (admits : NodeKind → Bool) (c : Cursor) (nodes : List Node) (later : Cursor) :
    Prop where
  reaches : c.Reaches later
  admitted : ∀ node ∈ nodes, admits node.kind = true
  formed : ∀ node ∈ Node.listingAll nodes, node.WellFormed start

namespace Forms

variable {start c middle later : Cursor} {admits admits' : NodeKind → Bool} {nodes more : List Node}

theorem skip (h : c.Reaches later) : Forms start admits c [] later := ⟨h, by simp, by simp⟩

theorem mono (h : Forms start admits c nodes later)
    (himp : ∀ kind, admits kind = true → admits' kind = true) : Forms start admits' c nodes later :=
  ⟨h.reaches, fun node hnode => himp _ (h.admitted node hnode), h.formed⟩

theorem of_reaches (h : c.Reaches middle) (hnodes : Forms start admits middle nodes later) :
    Forms start admits c nodes later :=
  ⟨h.trans hnodes.reaches, hnodes.admitted, hnodes.formed⟩

/-- Nodes that are formed up to different cursors, put together. -/
theorem join (h : Forms start admits c nodes middle) (hmore : Forms start admits c more later) :
    Forms start admits c (nodes ++ more) later := by
  refine ⟨hmore.reaches, ?_, ?_⟩
  · intro node hnode
    exact (List.mem_append.1 hnode).elim (h.admitted node) (hmore.admitted node)
  · intro node hnode
    rw [Node.listingAll_append, List.mem_append] at hnode
    exact hnode.elim (h.formed node) (hmore.formed node)

theorem append (h : Forms start admits c nodes middle) (hmore : Forms start admits middle more later) :
    Forms start admits c (nodes ++ more) later :=
  h.join (hmore.of_reaches h.reaches)

theorem of_append (h : Forms start admits c (nodes ++ more) later) :
    Forms start admits c nodes later ∧ Forms start admits c more later := by
  have hall := h.formed
  rw [Node.listingAll_append] at hall
  exact ⟨⟨h.reaches, fun node hnode => h.admitted node (List.mem_append_left _ hnode),
      fun node hnode => hall node (List.mem_append_left _ hnode)⟩,
    ⟨h.reaches, fun node hnode => h.admitted node (List.mem_append_right _ hnode),
      fun node hnode => hall node (List.mem_append_right _ hnode)⟩⟩

theorem trans_reaches (h : Forms start admits c nodes middle) (hlater : middle.Reaches later) :
    Forms start admits c nodes later :=
  ⟨h.reaches.trans hlater, h.admitted, h.formed⟩

/-- The node of a single one, and what is below it. -/
theorem of_single {node : Node} (h : Forms start admits c [node] later) :
    node.WellFormed start ∧ Forms start node.kind.mayHold c node.children later := by
  have hnode := h.formed node (Node.mem_listingAll_of_mem List.mem_cons_self)
  refine ⟨hnode, h.reaches, hnode.placed, fun inner hinner => ?_⟩
  exact h.formed inner (Node.mem_listingAll_cons.2 (.inr (.inl hinner)))

/-- A well formed node around others. -/
theorem single {node : Node} (hadmits : admits node.kind = true) (hnode : node.WellFormed start)
    (h : Forms start admits' c node.children later) : Forms start admits c [node] later := by
  refine ⟨h.reaches, ?_, ?_⟩
  · intro n hn
    rw [List.mem_singleton] at hn
    rwa [hn]
  · intro n hn
    rcases Node.mem_listingAll_cons.1 hn with rfl | hbelow | hn
    · exact hnode
    · exact h.formed n hbelow
    · simp at hn

/-- A node between two cursors with the nodes below it. -/
theorem node {node : Node} (hstart : start.Valid) (hc : start.Reaches c) (hpasses : c.Passes later)
    (hadmits : admits node.kind = true) (hlies : node.LiesBetween c later)
    (hattributes : ∀ a ∈ node.attributes, start.Frames a.span)
    (h : Forms start node.kind.mayHold c node.children later) : Forms start admits c [node] later :=
  single hadmits (hlies.wellFormed hstart hc hpasses hattributes h.admitted) h

theorem unmarked {node : Node} (hstart : start.Valid) (hc : start.Reaches c) (hpasses : c.Passes later)
    (hadmits : admits node.kind = true) (hlies : node.LiesBetween c later) (hattributes : node.attributes = [])
    (h : Forms start node.kind.mayHold c node.children later) : Forms start admits c [node] later :=
  Forms.node hstart hc hpasses hadmits hlies (hattributes ▸ List.forall_mem_nil _) h

end Forms

end SourceLint
