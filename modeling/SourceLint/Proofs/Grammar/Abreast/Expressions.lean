import SourceLint.Proofs.Grammar.Abreast.Closures

/-!
# Expressions side by side

An expression that is read from two cursors that are abreast has the same outline and ends at
cursors that are abreast. No expression is read at a semicolon that goes, unless nothing behind it
begins an operand.
-/

namespace SourceLint.Grammar

open Node (SameOutline)

variable {gone : Lexeme → Bool} {levels depth : Nat} {before : List Lexeme} {c c' : Cursor}
    {x y : Lexeme} {g g' : Grammar}

/-! ### Operands -/

/-- Both readings have an operand, or neither has one and both stand where they were. -/
def PrimaryPair (gone : Lexeme → Bool) (levels : Nat) (c c' : Cursor)
    (r r' : Option (List Node) × Cursor) : Prop :=
  (r = (none, c) ∧ r' = (none, c')) ∨
    ∃ nodes nodes', r.1 = some nodes ∧ r'.1 = some nodes' ∧
      OperandPair gone levels c c' nodes r.2 nodes' r'.2

theorem Kept.operandPair (h : Kept gone levels before c c' x y) (hx : x.isSymbol "," = false) :
    OperandPair gone levels c c' [] c.advance [] c'.advance :=
  ⟨.nil, h.onward, h.spaced hx, rfl⟩

theorem not_comma_of_isMemberName (hx : x.isMemberName = true) : x.isSymbol "," = false := by
  refine isSymbol_of_kind_ne (fun hkind => ?_) _
  rw [Lexeme.isMemberName, Lexeme.isWord, Lexeme.isIdentifier, hkind] at hx
  exact absurd hx (by decide)

/-- Behind a point the name of a member comes at both cursors or at none. -/
theorem Kept.atMember (h : Kept gone levels before c c' x y) (hx : x.isSymbol "." = true) :
    atMember c' = atMember c ∧
      (atMember c = true → ∃ z w, Kept gone levels (x :: before) c.advance c'.advance z w ∧
        z.isSymbol "," = false) := by
  have hcomma : (x :: before).head?.any (fun l => l.isSymbol ",") = false := isSymbol_ne hx (by decide)
  rw [Grammar.atMember, Grammar.atMember, Cursor.atSymbol, Cursor.atSymbol, h.next, h.next',
    h.alike.isSymbol, hx, Cursor.peekAt?_one h.peek, Cursor.peekAt?_one h.peek']
  cases h.later.meeting with
  | finished hahead hahead' =>
      rw [Cursor.peek?, Cursor.peek?, hahead, hahead']
      exact ⟨rfl, fun hmember => absurd hmember Bool.false_ne_true⟩
  | dropped hdropped =>
      have hstays := h.later.stays (dangling_of_isSymbol hx (by decide))
      rw [Cursor.next_of_peek? hdropped.peek, hdropped.goes] at hstays
      exact absurd hstays Bool.noConfusion
  | @kept z w hkept =>
      rw [hkept.peek, hkept.peek', Option.any_some, Option.any_some, hkept.alike.isMemberName]
      cases hmember : z.isMemberName with
      | false => exact ⟨rfl, fun hmember => absurd hmember Bool.false_ne_true⟩
      | true =>
          have hz := not_comma_of_isMemberName hmember
          rw [hkept.apart.eq hz hcomma]
          exact ⟨rfl, fun _ => ⟨z, w, hkept, hz⟩⟩

theorem Follows.primary (hg : Follows gone levels g g' depth) (h : Abreast gone levels before c c')
    (hnext : c.next gone = false) (hroom : 2 * c'.ahead.length ≤ depth) :
    Outcome.Follows (PrimaryPair gone levels c c') (g.primary c) (g'.primary c') := by
  have hnone : Outcome.Follows (PrimaryPair gone levels c c') (.ok (none, c)) (.ok (none, c')) :=
    .ok (.inl ⟨rfl, rfl⟩)
  cases h.meeting with
  | finished hahead hahead' =>
      rw [Grammar.primary, Grammar.primary, Cursor.peek?, Cursor.peek?, hahead, hahead']
      exact hnone
  | dropped hdropped =>
      rw [Cursor.next_of_peek? hdropped.peek, hdropped.goes] at hnext
      exact absurd hnext Bool.noConfusion
  | @kept x y hkept =>
      have hlength := hkept.passes'.2
      have htake : x.isSymbol "," = false → Outcome.Follows (PrimaryPair gone levels c c')
          (.ok (some [], c.advance)) (.ok (some [], c'.advance)) := fun hx =>
        .ok (.inr ⟨[], [], rfl, rfl, hkept.operandPair hx⟩)
      rw [Grammar.primary, Grammar.primary, hkept.peek, hkept.peek']
      dsimp only
      rw [hkept.alike.kind]
      cases hkind : x.kind with
      | token kind =>
          have hcomma : x.isSymbol "," = false := isSymbol_of_kind_ne (by simp [hkind]) _
          cases kind with
          | identifier | string | other => exact htake hcomma
          | comment => exact hnone
          | keyword =>
              dsimp only
              rw [hkept.alike.text_eq (by simp [hkind])]
              split
              · exact htake hcomma
              · exact hnone
      | punctuation =>
          have hsymbol : ∀ {text : String}, (x.text == text) = true → x.isSymbol text = true := by
            intro text htext
            rw [Lexeme.isSymbol, hkind, htext]
            rfl
          dsimp only
          rw [hkept.alike.text_eq (by simp [hkind])]
          split
          · refine (hg.arguments hkept.later x y (by decide) (by omega)).bind ?_
            rintro ⟨⟨nodes, closer⟩, later⟩ ⟨⟨nodes', closer'⟩, later'⟩ hgroup
            refine .ok (.inr ⟨nodes, nodes', rfl, rfl, hgroup.outline,
              hkept.onward.trans hgroup.onward, hgroup.spaced, ?_⟩)
            exact (endsWithCall_of_endsBefore hgroup.ends').trans
              (endsWithCall_of_endsBefore hgroup.ends).symm
          · split
            · refine (hg.collection hkept hroom).bind ?_
              rintro ⟨node, later⟩ ⟨node', later'⟩ hpair
              exact .ok (.inr ⟨_, _, rfl, rfl, hpair⟩)
            · split
              · refine (hg.closure h hroom).bind ?_
                rintro ⟨node, later⟩ ⟨node', later'⟩ ⟨hpair, -⟩
                exact .ok (.inr ⟨_, _, rfl, rfl, hpair⟩)
              · split
                · rename_i hpoint
                  obtain ⟨heq, hmember⟩ := hkept.atMember (hsymbol hpoint)
                  rw [heq]
                  cases hat : atMember c with
                  | false => exact hnone
                  | true =>
                      obtain ⟨z, w, hkept', hz⟩ := hmember hat
                      exact .ok (.inr ⟨[], [], rfl, rfl, .nil, hkept.onward.trans hkept'.onward,
                        hkept'.spaced hz, rfl⟩)
                · split
                  · rename_i hslash
                    exact htake (isSymbol_ne (hsymbol hslash) (by decide))
                  · exact hnone

/-- A trailing closure joins the call that ends an operand in both readings, or in neither. -/
theorem sameOutline_attachClosure {first first' middle middle' : Cursor} {state state' : OperandState}
    {closure closure' : Node} (hnodes : SameOutline state.nodes state'.nodes)
    (hends : endsWithCall state'.nodes middle' = endsWithCall state.nodes middle)
    (hclosure : SameOutline [closure] [closure']) :
    SameOutline (attachClosure first state middle.lastStop closure)
      (attachClosure first' state' middle'.lastStop closure') := by
  have hcall : SameOutline [callNode first state.callee closure.span.stop (state.nodes ++ [closure])]
      [callNode first' state'.callee closure'.span.stop (state'.nodes ++ [closure'])] :=
    .singleton rfl (hnodes.append hclosure)
  rw [attachClosure, attachClosure]
  rcases hnodes.eq_nil_or_concat with ⟨hnil, hnil'⟩ | ⟨nodes, call, nodes', call', hconcat, hconcat'⟩
  · simp only [hnil, hnil', List.getLast?_nil] at hcall ⊢
    exact hcall
  · rw [endsWithCall, endsWithCall, hconcat, hconcat', List.getLast?_concat, List.getLast?_concat,
      Option.any_some, Option.any_some] at hends
    rw [hconcat, hconcat'] at hnodes
    obtain ⟨hbefore, hlast⟩ := hnodes.of_concat
    obtain ⟨hkind, hchildren⟩ := hlast.of_singleton
    simp only [hconcat, hconcat', List.getLast?_concat, List.dropLast_concat] at hcall ⊢
    rw [hends]
    split
    · exact hbefore.append (.singleton hkind (hchildren.append hclosure))
    · exact hcall

/-- With its trailing closure an operand ends with a call. -/
theorem endsWithCall_attachClosure {first middle later : Cursor} {state : OperandState} {closure : Node}
    (hfirst : first.here ≤ later.lastStop) (hmiddle : middle.lastStop ≤ later.lastStop)
    (hstop : closure.span.stop = later.lastStop) :
    endsWithCall (attachClosure first state middle.lastStop closure) later = true := by
  have hcall : endsWithCall [callNode first state.callee closure.span.stop (state.nodes ++ [closure])]
      later = true := by
    have hspan : (callNode first state.callee closure.span.stop (state.nodes ++ [closure])).span.stop =
        later.lastStop := by
      rw [callNode, hstop]
      exact Span.stop_ofBounds hfirst
    rw [endsWithCall, List.getLast?_singleton, Option.any_some, hspan]
    simp [callNode]
  rw [attachClosure]
  split
  · rename_i call hlast
    split
    · rename_i hends
      rw [Bool.and_eq_true, beq_iff_eq, beq_iff_eq] at hends
      have hlocation := call.span_location_le_stop
      have hspan : (Span.ofBounds call.span.location closure.span.stop).stop = later.lastStop := by
        rw [hstop]
        exact Span.stop_ofBounds (by omega)
      rw [endsWithCall, List.getLast?_concat, Option.any_some, hspan]
      simp [hends.1]
    · exact hcall
  · exact hcall

/-- Two operands as far as they have been read. -/
def OperandState.Pair (gone : Lexeme → Bool) (levels : Nat) (c c' : Cursor) (state : OperandState)
    (middle : Cursor) (state' : OperandState) (middle' : Cursor) : Prop :=
  OperandPair gone levels c c' state.nodes middle state'.nodes middle'

/-- What a suffix is read of: an operand that has been read up to a place behind its beginning. -/
def OperandState.IsRead (c : Cursor) (state : OperandState) (middle : Cursor) : Prop :=
  Reads c state.nodes middle ∧ c.Passes middle

theorem OperandState.IsRead.endsBefore {state : OperandState} {middle later : Cursor}
    (h : state.IsRead c middle) (hc : c.Valid) (hpasses : middle.Passes later) :
    EndsBefore state.nodes later :=
  endsBefore_of_reads hc h.1 hpasses

/-- Two operands end at cursors that are abreast, and not before a mark. -/
def OperandEnd (gone : Lexeme → Bool) (levels : Nat) (c c' : Cursor) (r r' : List Node × Cursor) :
    Prop :=
  SameOutline r.1 r'.1 ∧ Onward gone levels c c' r.2 r'.2 ∧ r.2.next Lexeme.isPostfixOperator = false

/-- Behind an operand nothing is read at a semicolon that goes, and nothing at the line behind it. -/
theorem suffixRound_of_dropped {middle middle' : Cursor}
    (h : Dropped gone levels before middle middle' x)
    (trailing : Bool) (first first' : Cursor) (state state' : OperandState) :
    g.suffixRound trailing first state middle = .ok (.done state.nodes, middle) ∧
      g'.suffixRound trailing first' state' middle' = .ok (.done state'.nodes, middle') := by
  obtain ⟨hkind, htext⟩ := Lexeme.isSymbol_iff.1 h.semicolon
  refine ⟨?_, ?_⟩
  · have hmark := isPostfixOperator_of_semicolon h.semicolon
    rw [suffixRound, h.peek]
    simp [hkind, htext, hmark]
  · have hfresh := h.fresh
    rw [suffixRound]
    cases hpeek : middle'.peek? with
    | none => rfl
    | some y =>
        obtain ⟨ahead, hahead⟩ := Cursor.peek?_eq_some_iff.1 hpeek
        rw [hahead] at hfresh
        by_cases hkind' : y.kind = .punctuation
        · have hpoint : y.text ≠ "." := fun hy => by
            have hsymbol : y.isSymbol "." = false := hfresh.isSymbol (by decide)
            rw [Lexeme.isSymbol_iff.2 ⟨hkind', hy⟩] at hsymbol
            exact Bool.noConfusion hsymbol
          simp [hkind', hpoint, hfresh.head_isOnNewLine, hfresh.isPostfixOperator]
        · simp [hkind']

/-- What is known of two operands before the next suffix is read. -/
structure SuffixState (gone : Lexeme → Bool) (levels : Nat) (c c' : Cursor) (state : OperandState)
    (middle : Cursor) (state' : OperandState) (middle' : Cursor) : Prop where
  valid : c.Valid
  valid' : c'.Valid
  pair : OperandPair gone levels c c' state.nodes middle state'.nodes middle'
  read : state.IsRead c middle
  read' : state'.IsRead c' middle'

/-- Another suffix of two operands, or their ends. -/
def SuffixRounds (gone : Lexeme → Bool) (levels : Nat) (c c' middle' : Cursor) :
    Round OperandState (List Node) × Cursor → Round OperandState (List Node) × Cursor → Prop :=
  Round.Pair (OperandState.Pair gone levels c c') (OperandEnd gone levels c c') middle'

namespace SuffixState

variable {state state' : OperandState} {middle middle' later later' : Cursor} {nodes nodes' : List Node}
    {closer closer' : Lexeme} {closure closure' : Node}

theorem stop (h : SuffixState gone levels c c' state middle state' middle')
    (hmark : middle.next Lexeme.isPostfixOperator = false) :
    Outcome.Follows (SuffixRounds gone levels c c' middle') (.ok (.done state.nodes, middle))
      (.ok (.done state'.nodes, middle')) :=
  .ok ⟨h.pair.outline, h.pair.onward, hmark⟩

/-- Behind lexemes without nodes two operands do not end with a call. -/
theorem past (h : SuffixState gone levels c c' state middle state' middle')
    (honward : Onward gone levels middle middle' later later') (hpasses : middle.Passes later)
    (hpasses' : middle'.Passes later') (hspaced : Spaced gone later later') :
    OperandPair gone levels c c' state.nodes later state'.nodes later' where
  outline := h.pair.outline
  onward := h.pair.onward.trans honward
  spaced := hspaced
  ends := (endsWithCall_of_endsBefore (h.read'.endsBefore h.valid' hpasses')).trans
    (endsWithCall_of_endsBefore (h.read.endsBefore h.valid hpasses)).symm

/-- With arguments behind it an operand is a call. -/
theorem call (h : SuffixState gone levels c c' state middle state' middle')
    (hkept : Kept gone levels before middle middle' x y)
    (hgroup : GroupEnd gone levels middle.advance middle'.advance nodes later nodes' later')
    (hcloser : later.lastStop = closer.stop) (hcloser' : later'.lastStop = closer'.stop)
    (body body' : Option Span) :
    OperandPair gone levels c c'
      [{ callNode c state.callee closer.stop (state.nodes ++ nodes) with body }] later
      [{ callNode c' state'.callee closer'.stop (state'.nodes ++ nodes') with body := body' }]
      later' := by
  have hends := (h.read.2.trans_reaches
    ((Cursor.Reaches.advance middle).trans hgroup.onward.reaches)).here_lt_lastStop h.valid
  have hends' := (h.read'.2.trans_reaches
    ((Cursor.Reaches.advance middle').trans hgroup.onward.reaches')).here_lt_lastStop h.valid'
  rw [hcloser] at hends
  rw [hcloser'] at hends'
  refine ⟨.singleton rfl (h.pair.outline.append hgroup.outline),
    h.pair.onward.trans (hkept.onward.trans hgroup.onward), hgroup.spaced, ?_⟩
  simp [endsWithCall, callNode, Span.stop_ofBounds (Nat.le_of_lt hends),
    Span.stop_ofBounds (Nat.le_of_lt hends'), hcloser, hcloser']

theorem subscript (h : SuffixState gone levels c c' state middle state' middle')
    (hkept : Kept gone levels before middle middle' x y)
    (hgroup : GroupEnd gone levels middle.advance middle'.advance nodes later nodes' later') :
    OperandPair gone levels c c' (state.nodes ++ nodes) later (state'.nodes ++ nodes') later' := by
  have hpasses := (Cursor.Passes.advance hkept.peek).trans_reaches hgroup.onward.reaches
  have hpasses' := hkept.passes'.trans_reaches hgroup.onward.reaches'
  refine ⟨h.pair.outline.append hgroup.outline,
    h.pair.onward.trans (hkept.onward.trans hgroup.onward), hgroup.spaced, ?_⟩
  exact (endsWithCall_of_endsBefore
    ((h.read'.endsBefore h.valid' hpasses').append hgroup.ends')).trans
    (endsWithCall_of_endsBefore ((h.read.endsBefore h.valid hpasses).append hgroup.ends)).symm

theorem attachClosure (h : SuffixState gone levels c c' state middle state' middle')
    (habreast : Abreast gone levels before middle middle')
    (hclosure : OperandPair gone levels middle middle' [closure] later [closure'] later')
    (hstop : closure.span.stop = later.lastStop) (hstop' : closure'.span.stop = later'.lastStop) :
    OperandPair gone levels c c' (Grammar.attachClosure c state middle.lastStop closure) later
      (Grammar.attachClosure c' state' middle'.lastStop closure') later' := by
  have hends := (h.read.2.trans_reaches hclosure.onward.reaches).here_lt_lastStop h.valid
  have hends' := (h.read'.2.trans_reaches hclosure.onward.reaches').here_lt_lastStop h.valid'
  refine ⟨sameOutline_attachClosure h.pair.outline h.pair.ends hclosure.outline,
    h.pair.onward.trans hclosure.onward, hclosure.spaced, ?_⟩
  exact (endsWithCall_attachClosure (Nat.le_of_lt hends')
    (hclosure.onward.reaches'.lastStop_le habreast.valid') hstop').trans
    (endsWithCall_attachClosure (Nat.le_of_lt hends)
      (hclosure.onward.reaches.lastStop_le habreast.valid) hstop).symm

/-- The name of a member is taken at both cursors or at none. -/
theorem member (h : SuffixState gone levels c c' state middle state' middle')
    (hkept : Kept gone levels before middle middle' x y) (hx : x.isSymbol "." = true) :
    Outcome.Follows (SuffixRounds gone levels c c' middle')
      (if atMember middle then
          .ok (.again { state with callee := middle.advanceBy 2 }, middle.advanceBy 2)
        else .ok (.done state.nodes, middle))
      (if atMember middle' then
          .ok (.again { state' with callee := middle'.advanceBy 2 }, middle'.advanceBy 2)
        else .ok (.done state'.nodes, middle')) := by
  obtain ⟨heq, hmember⟩ := hkept.atMember hx
  rw [heq]
  cases hat : atMember middle with
  | false =>
      refine h.stop (hkept.next.trans ?_)
      simp [Lexeme.isPostfixOperator, (Lexeme.isSymbol_iff.1 hx).2]
  | true =>
      obtain ⟨z, w, hkept₂, hz⟩ := hmember hat
      have hpasses := (Cursor.Passes.advance hkept.peek).trans_reaches
        (Cursor.Reaches.advance middle.advance)
      have hpasses' := hkept.passes'.trans_reaches hkept₂.passes'.1
      exact .ok ⟨h.past (hkept.onward.trans hkept₂.onward) hpasses hpasses' (hkept₂.spaced hz),
        hpasses'.2⟩

end SuffixState

/-- A bracket opens a subscript at both cursors or at none. -/
theorem Kept.opensSubscript (h : Kept gone levels before c c' x y) (hspaced : Spaced gone c c') :
    (x.text == "[" && !x.isOnNewLine && !y.isApart) =
      (x.text == "[" && !x.isOnNewLine && !x.isApart) := by
  cases hcomma : x.isSymbol "," with
  | false => rw [hspaced _ _ h.peek h.peek' h.stays hcomma]
  | true => simp [(Lexeme.isSymbol_iff.1 hcomma).2]

theorem Follows.suffixRound (hg : Follows gone levels g g' depth) (trailing : Bool)
    {state state' : OperandState} {middle middle' : Cursor}
    (h : SuffixState gone levels c c' state middle state' middle')
    (hroom : 2 * c'.ahead.length ≤ depth) :
    Outcome.Follows (SuffixRounds gone levels c c' middle')
      (g.suffixRound trailing c state middle) (g'.suffixRound trailing c' state' middle') := by
  obtain ⟨before, habreast⟩ := h.pair.onward.abreast
  have hlength := h.read'.2.2
  cases habreast.meeting with
  | finished hahead hahead' =>
      rw [Grammar.suffixRound, Grammar.suffixRound, Cursor.peek?, Cursor.peek?, hahead, hahead']
      exact h.stop (Cursor.next_of_nil hahead)
  | @dropped x hdropped =>
      have hdone : g.suffixRound trailing c state middle = .ok (.done state.nodes, middle) ∧
          g'.suffixRound trailing c' state' middle' = .ok (.done state'.nodes, middle') :=
        suffixRound_of_dropped hdropped trailing c c' state state'
      rw [hdone.1, hdone.2]
      refine h.stop ?_
      rw [Cursor.next_of_peek? hdropped.peek, isPostfixOperator_of_semicolon hdropped.semicolon]
  | @kept x y hkept =>
      have halike := hkept.alike
      have hmark := habreast.next_isPostfixOperator_eq h.pair.spaced
      rw [hkept.next, hkept.next'] at hmark
      have hlength' := hkept.passes'.2
      rw [Grammar.suffixRound, Grammar.suffixRound, hkept.peek, hkept.peek']
      dsimp only
      rw [halike.kind, hmark]
      by_cases hkind : x.kind = .punctuation
      · have hne : (x.kind != .punctuation) = false := by simp [hkind]
        rw [hne, if_neg Bool.false_ne_true, if_neg Bool.false_ne_true, halike.text_eq (by simp [hkind]),
          halike.isOnNewLine, hkept.opensSubscript h.pair.spaced]
        split
        · rename_i hpoint
          exact h.member hkept (Lexeme.isSymbol_iff.2 ⟨hkind, beq_iff_eq.1 hpoint⟩)
        · split
          · refine ((hg.arguments hkept.later x y (by decide) (by omega)).meets
              (hg.sound.arguments habreast.valid.advance x ")")
              (hg.sound'.arguments habreast.valid'.advance y ")")).bind ?_
            rintro ⟨⟨nodes, closer⟩, later⟩ ⟨⟨nodes', closer'⟩, later'⟩
              ⟨hgroup, ⟨-, hcloser⟩, ⟨-, hcloser'⟩⟩
            exact .ok ⟨h.call hkept hgroup hcloser hcloser' _ _,
              (hkept.passes'.trans_reaches hgroup.onward.reaches').2⟩
          · split
            · refine (hg.arguments hkept.later x y (by decide) (by omega)).bind ?_
              rintro ⟨⟨nodes, closer⟩, later⟩ ⟨⟨nodes', closer'⟩, later'⟩ hgroup
              exact .ok ⟨h.subscript hkept hgroup,
                (hkept.passes'.trans_reaches hgroup.onward.reaches').2⟩
            · split
              · refine ((hg.closure habreast (by omega)).meets (hg.sound.closure habreast.valid)
                  (hg.sound'.closure habreast.valid')).bind ?_
                rintro ⟨closure, later⟩ ⟨closure', later'⟩
                  ⟨⟨hpair, hpasses'⟩, ⟨-, -, hstop⟩, ⟨-, -, hstop'⟩⟩
                exact .ok ⟨h.attachClosure habreast hpair hstop hstop', hpasses'.2⟩
              · split
                · rename_i hpostfix
                  have hcomma : x.isSymbol "," = false :=
                    isSymbol_of_isOperator (Lexeme.isOperator_of_isPostfixOperator hpostfix) (.inl rfl)
                  exact .ok ⟨h.past hkept.onward (.advance hkept.peek) hkept.passes'
                    (hkept.spaced hcomma), hkept.passes'.2⟩
                · rename_i hpostfix
                  exact h.stop (hkept.next.trans (Bool.eq_false_iff.2 hpostfix))
      · rw [if_pos (bne_iff_ne.2 hkind), if_pos (bne_iff_ne.2 hkind)]
        refine h.stop (hkept.next.trans ?_)
        rw [Lexeme.isPostfixOperator, beq_false_of_ne hkind, Bool.false_and, Bool.false_and,
          Bool.false_and]

/-- Both readings have an operand that no mark follows, or neither has one and both stand where they
were. -/
def OperandsPair (gone : Lexeme → Bool) (levels : Nat) (c c' : Cursor)
    (r r' : Option (List Node) × Cursor) : Prop :=
  (r = (none, c) ∧ r' = (none, c')) ∨
    ∃ nodes nodes', r.1 = some nodes ∧ r'.1 = some nodes' ∧
      OperandEnd gone levels c c' (nodes, r.2) (nodes', r'.2)

theorem Follows.operand (hg : Follows gone levels g g' depth) (h : Abreast gone levels before c c')
    (hnext : c.next gone = false) (hroom : 2 * c'.ahead.length ≤ depth) (trailing : Bool) :
    Outcome.Follows (OperandsPair gone levels c c') (g.operand trailing c) (g'.operand trailing c') := by
  rw [Grammar.operand, Grammar.operand]
  refine ((hg.primary h hnext hroom).meets (hg.sound.primary h.valid)
    (hg.sound'.primary h.valid')).bind ?_
  rintro ⟨nodes, later⟩ ⟨nodes', later'⟩ ⟨hpair, ⟨-, hread⟩, ⟨-, hread'⟩⟩
  rcases hpair with ⟨heq, heq'⟩ | ⟨nodes, nodes', rfl, rfl, hpair⟩
  · obtain ⟨rfl, rfl⟩ := Prod.mk.inj heq
    obtain ⟨rfl, rfl⟩ := Prod.mk.inj heq'
    exact .ok (.inl ⟨rfl, rfl⟩)
  · have hstart : OperandState.Pair gone levels c c' ⟨nodes, later⟩ later ⟨nodes', later'⟩ later' ∧
        OperandState.IsRead c ⟨nodes, later⟩ later ∧ OperandState.IsRead c' ⟨nodes', later'⟩ later' :=
      ⟨hpair, hread nodes rfl, hread' nodes' rfl⟩
    refine (follows_repeatRounds (R := OperandEnd gone levels c c')
      (S := fun state middle state' middle' =>
      OperandState.Pair gone levels c c' state middle state' middle' ∧ state.IsRead c middle ∧
        state'.IsRead c' middle') ?_ hstart).bind ?_
    · rintro state middle state' middle' - ⟨hstate, hread, hread'⟩
      have hsuffix : SuffixState gone levels c c' state middle state' middle' :=
        ⟨h.valid, h.valid', hstate, hread, hread'⟩
      exact .inr ((hg.suffixRound trailing hsuffix hroom).keeps
        (hg.sound.suffixRound h.valid trailing hread) (hg.sound'.suffixRound h.valid' trailing hread'))
    · rintro ⟨nodes₂, later₂⟩ ⟨nodes₂', later₂'⟩ hend
      exact .ok (.inr ⟨nodes₂, nodes₂', rfl, rfl, hend⟩)

/-! ### Operators -/

theorem follows_castRounds (h : Abreast gone levels before c c')
    (hmark : c.next Lexeme.isPostfixOperator = false) :
    Outcome.Follows (fun r r' : Unit × Cursor => TypeEnd gone levels c c' r.2 r'.2)
      (repeatRounds castRound () c) (repeatRounds castRound () c') := by
  refine follows_repeatRounds (S := fun _ middle _ middle' => TypeEnd gone levels c c' middle middle') ?_
    ⟨.refl h, hmark⟩
  rintro ⟨⟩ middle ⟨⟩ middle' - ⟨honward, hmark⟩
  right
  obtain ⟨before', habreast⟩ := honward.abreast
  rw [castRound, castRound, habreast.atKeyword_eq (by decide), habreast.atKeyword_eq (by decide)]
  split
  · rename_i hcast
    rw [Bool.or_eq_true] at hcast
    obtain ⟨x, y, hkept, hx⟩ : ∃ x y, Kept gone levels before' middle middle' x y ∧
        (x.isKeyword "as" = true ∨ x.isKeyword "is" = true) := by
      rcases hcast with hcast | hcast
      · obtain ⟨x, y, hkept, hx⟩ := habreast.kept_of_atKeyword hcast
        exact ⟨x, y, hkept, .inl hx⟩
      · obtain ⟨x, y, hkept, hx⟩ := habreast.kept_of_atKeyword hcast
        exact ⟨x, y, hkept, .inr hx⟩
    refine (hkept.follows_skipCastType hx).bind ?_
    rintro later later' ⟨hlater, hmark'⟩
    exact .ok ⟨⟨honward.trans (hkept.onward.trans hlater), hmark'⟩,
      (hkept.passes'.trans_reaches hlater.reaches').2⟩
  · exact .ok ⟨honward, hmark⟩

/-- The states of two expressions that are read from two cursors on. An operand may come next, unless a
semicolon that goes does; then nothing behind it begins one. -/
structure OperatorState (gone : Lexeme → Bool) (levels : Nat) (c c' : Cursor)
    (state : ExpressionNodes) (middle : Cursor)
    (state' : ExpressionNodes) (middle' : Cursor) : Prop where
  same : SameExpression state state'
  reaches : c.Reaches middle
  reaches' : c'.Reaches middle'
  abreast : ∃ before, Abreast gone levels before middle middle' ∧ ¬Lone gone before middle ∧
    (middle.next gone = true → (behindSemicolons? middle.ahead).any beginsOperand = false)

/-- Behind an operator a semicolon goes only where nothing begins an operand. -/
theorem Abreast.not_beginsOperand (h : Abreast gone levels (x :: before) c c') (hx : x.isOperator = true)
    (hmark : x.isPostfixOperator = false) (hnext : c.next gone = true) :
    (behindSemicolons? c.ahead).any beginsOperand = false := by
  obtain ⟨z, hz⟩ := Cursor.exists_peek?_of_next hnext
  rw [Cursor.next_of_peek? hz] at hnext
  obtain ⟨ahead, hahead⟩ := Cursor.peek?_eq_some_iff.1 hz
  have hharmless := h.harmless
  rw [hahead] at hharmless ⊢
  rcases (hharmless.semicolon hnext).1 with hcompletes | ⟨-, hbehind⟩
  · rw [completes_of_isOperator hx hmark] at hcompletes
    exact absurd hcompletes Bool.false_ne_true
  · exact hbehind

/-- No operand is read at a semicolon that goes with nothing behind it that begins one, and none behind
it. -/
theorem operandRound_of_dropped {middle middle' : Cursor}
    (habreast : Abreast gone levels before middle middle')
    (h : Dropped gone levels before middle middle' x)
    (hbehind : (behindSemicolons? middle.ahead).any beginsOperand = false) (trailing : Bool)
    (state state' : ExpressionNodes) :
    g.operandRound trailing state middle = .ok (.done state, middle) ∧
      g'.operandRound trailing state' middle' = .ok (.done state', middle') := by
  have hdone : ∀ {g : Grammar} {state : ExpressionNodes} {c : Cursor}, operandPrefixLength c.ahead = 0 →
      g.primary c = .ok (none, c) → g.operandRound trailing state c = .ok (.done state, c) :=
    fun hfront hnone => operandRound_of_primary (by rw [hfront]; rfl) hnone
  refine ⟨?_, ?_⟩
  · obtain ⟨hfront, hnone⟩ := primary_of_separator (g := g) h.peek (.inl h.semicolon)
    exact hdone hfront hnone
  · cases hpeek : middle'.peek? with
    | none =>
        have hahead : middle'.ahead = [] := List.head?_eq_none_iff.1 hpeek
        refine hdone ?_ ?_
        · rw [hahead]
          rfl
        · rw [primary, hpeek]
    | some y =>
        have hprimary : operandPrefixLength middle'.ahead = 0 ∧
          g'.primary middle' = .ok (none, middle') := by
          rcases habreast.thinned.head?_behindSemicolons with hsemicolon | ⟨z, y', hz, hy', halike⟩
          · rw [Cursor.peek?] at hpeek
            rw [hpeek, Option.all_some] at hsemicolon
            exact primary_of_separator hpeek (.inl hsemicolon)
          · obtain rfl : y' = y := Option.some.inj (hy'.symm.trans hpeek)
            rw [hz, Option.any_some] at hbehind
            exact primary_of_not_beginsOperand hpeek (halike.beginsOperand.trans hbehind)
        exact hdone hprimary.1 hprimary.2

/-- What comes next at the line behind a semicolon that goes is no operator that carries on an
expression. -/
theorem Fresh.begins_statement (h : Fresh c.ahead) (hpeek : c.peek? = some x)
    (hx : x.isOperator = true) :
    (x.isOnNewLine && (c.peekAt? 1).any fun l => !l.isApart) = true := by
  obtain ⟨ahead, hahead⟩ := Cursor.peek?_eq_some_iff.1 hpeek
  rw [hahead] at h
  rw [h.head_isOnNewLine, Bool.true_and, Cursor.peekAt?_one hpeek, Cursor.advance_of_cons hahead]
  rcases h.punctuation (kind_of_isOperator hx) with (hopens | hcloser) | ⟨-, hattached⟩
  · simp only [List.contains_cons, List.contains_nil, Bool.or_eq_true, beq_iff_eq,
      Bool.or_false] at hopens
    rcases hopens with htext | htext | htext | htext
    all_goals simp [Lexeme.isOperator, htext, Lexeme.isOperatorChar] at hx
  · simp only [Lexeme.isCloser, Bool.or_eq_true, Lexeme.isSymbol_iff] at hcloser
    rcases hcloser with (⟨-, htext⟩ | ⟨-, htext⟩) | ⟨-, htext⟩
    all_goals simp [Lexeme.isOperator, htext, Lexeme.isOperatorChar] at hx
  · exact hattached

/-- An operator begins a statement at both cursors or at none. -/
theorem Kept.begins_statement (h : Kept gone levels before c c' x y) (hx : x.isOperator = true) :
    (y.isOnNewLine && (c'.peekAt? 1).any fun l => !l.isApart) =
      (x.isOnNewLine && (c.peekAt? 1).any fun l => !l.isApart) := by
  rw [h.alike.isOnNewLine, Cursor.peekAt?_one h.peek, Cursor.peekAt?_one h.peek']
  cases hline : x.isOnNewLine with
  | false => rfl
  | true =>
      have hbehind := (h.behind_operator hx fun _ => dangling_of_isOperator hx (.inl hline)).2
      rw [Cursor.next, Cursor.next] at hbehind
      rw [hbehind]

/-- What comes behind an operand and its casts: the end of the expression, or an operator, with a whole
expression behind it in the first half of a ternary operator. -/
def operatorRound (g : Grammar) (trailing : Bool) (state : ExpressionNodes) (c : Cursor) :
    Outcome (Round ExpressionNodes ExpressionNodes × Cursor) :=
  match c.peek? with
  | none => .ok (.done state, c)
  | some lexeme =>
    if !lexeme.isOperator || (lexeme.isOnNewLine && (c.peekAt? 1).any fun l => !l.isApart) then
      .ok (.done state, c)
    else if lexeme.text == "?" then do
      let (e, later) ← g.expression trailing c.advance
      let state : ExpressionNodes := ⟨state.nodes ++ e.nodes, true⟩
      if later.atSymbol ":" then return (.again state, later.advance) else return (.done state, later)
    else .ok (.again state, c.advance)

/-- Another operand of two expressions, or their ends. -/
def OperandRounds (gone : Lexeme → Bool) (levels : Nat) (c c' middle' : Cursor) :
    Round ExpressionNodes ExpressionNodes × Cursor → Round ExpressionNodes ExpressionNodes × Cursor →
      Prop :=
  Round.Pair (OperatorState gone levels c c') (Along gone levels c c' SameExpression) middle'

section Operators

variable {state state' : ExpressionNodes} {start' middle middle' : Cursor}

/-- Behind a lexeme that carries on both expressions another operand may come. -/
theorem Kept.operandRounds (h : Kept gone levels before middle middle' x y)
    (hsame : SameExpression state state') (honward : Onward gone levels c c' middle middle')
    (hstart : middle'.ahead.length ≤ start'.ahead.length)
    (hlone : ¬Lone gone (x :: before) middle.advance)
    (hbehind : middle.advance.next gone = true →
      (behindSemicolons? middle.advance.ahead).any beginsOperand = false) :
    OperandRounds gone levels c c' start' (.again state, middle.advance)
      (.again state', middle'.advance) := by
  have hlater := honward.trans h.onward
  exact ⟨⟨hsame, hlater.reaches, hlater.reaches', _, h.later, hlone, hbehind⟩,
    Nat.lt_of_lt_of_le h.passes'.2 hstart⟩

/-- The first half of a ternary operator has an expression behind it, and the second one another
operand. -/
theorem Follows.ternary (hg : Follows gone levels g g' depth)
    (hkept : Kept gone levels before middle middle' x y) (hx : x.isOperator = true)
    (hmark : x.isPostfixOperator = false) (hquestion : x.text = "?")
    (hsame : SameExpression state state') (honward : Onward gone levels c c' middle middle')
    (hstart : middle'.ahead.length ≤ start'.ahead.length) (hroom : 2 * middle'.ahead.length ≤ depth)
    (trailing : Bool) :
    Outcome.Follows (OperandRounds gone levels c c' start')
      (g.expression trailing middle.advance >>= fun r =>
        if r.2.atSymbol ":" then pure (.again ⟨state.nodes ++ r.1.nodes, true⟩, r.2.advance)
        else pure (.done ⟨state.nodes ++ r.1.nodes, true⟩, r.2))
      (g'.expression trailing middle'.advance >>= fun r =>
        if r.2.atSymbol ":" then pure (.again ⟨state'.nodes ++ r.1.nodes, true⟩, r.2.advance)
        else pure (.done ⟨state'.nodes ++ r.1.nodes, true⟩, r.2)) := by
  have hbefore : Dangling (x :: before) := by
    refine dangling_of_not_contains hx hmark ?_
    rw [hquestion]
    decide
  have hlength := hkept.passes'.2
  refine (hg.expression hkept.later (hkept.later.stays hbefore) (not_lone_of_dangling hbefore)
    (by omega) trailing).bind ?_
  rintro ⟨e, later⟩ ⟨e', later'⟩ ⟨he, hlater⟩
  obtain ⟨before', habreast⟩ := hlater.abreast
  have hsame' : SameExpression ⟨state.nodes ++ e.nodes, true⟩ ⟨state'.nodes ++ e'.nodes, true⟩ :=
    ⟨hsame.nodes.append he.nodes, rfl⟩
  have honward' := honward.trans (hkept.onward.trans hlater)
  dsimp only
  rw [habreast.atSymbol_eq (by decide)]
  cases hcolon : later.atSymbol ":" with
  | false => exact .ok ⟨hsame', honward'⟩
  | true =>
      obtain ⟨colon, colon', hkept', hsymbol⟩ := habreast.kept_of_atSymbol hcolon (by decide)
      have hbefore' : Dangling (colon :: before') := dangling_of_isSymbol hsymbol (by decide)
      have hlength' := (hkept.passes'.trans_reaches hlater.reaches').2
      refine .ok (hkept'.operandRounds hsame' honward' (by omega) (not_lone_of_dangling hbefore') ?_)
      exact fun hgone => absurd ((hkept'.later.stays hbefore').symm.trans hgone) Bool.false_ne_true

theorem Follows.operatorRound (hg : Follows gone levels g g' depth)
    (h : Abreast gone levels before middle middle')
    (hmark : middle.next Lexeme.isPostfixOperator = false) (hsame : SameExpression state state')
    (honward : Onward gone levels c c' middle middle')
    (hstart : middle'.ahead.length ≤ start'.ahead.length) (hroom : 2 * middle'.ahead.length ≤ depth)
    (trailing : Bool) :
    Outcome.Follows (OperandRounds gone levels c c' start') (g.operatorRound trailing state middle)
      (g'.operatorRound trailing state' middle') := by
  have hdone : Outcome.Follows (OperandRounds gone levels c c' start') (.ok (.done state, middle))
      (.ok (.done state', middle')) := .ok ⟨hsame, honward⟩
  rw [Grammar.operatorRound, Grammar.operatorRound]
  cases h.meeting with
  | finished hahead hahead' =>
      rw [Cursor.peek?, Cursor.peek?, hahead, hahead']
      exact hdone
  | @dropped x hdropped =>
      -- an operator behind the semicolon that goes begins the next statement
      rw [hdropped.peek]
      dsimp only
      rw [isOperator_of_semicolon hdropped.semicolon]
      cases hpeek' : middle'.peek? with
      | none => exact hdone
      | some y =>
          dsimp only
          cases hy : y.isOperator with
          | false => exact hdone
          | true =>
              rw [hdropped.fresh.begins_statement hpeek' hy]
              exact hdone
  | @kept x y hkept =>
      rw [hkept.peek, hkept.peek']
      dsimp only
      rw [hkept.alike.isOperator]
      cases hx : x.isOperator with
      | false => exact hdone
      | true =>
          rw [hkept.begins_statement hx]
          cases (x.isOnNewLine && (middle.peekAt? 1).any fun l => !l.isApart) with
          | true => exact hdone
          | false =>
              have hpostfix : x.isPostfixOperator = false := hkept.next.symm.trans hmark
              rw [Bool.not_true, Bool.false_or, if_neg Bool.false_ne_true, if_neg Bool.false_ne_true,
                hkept.alike.text_eq (by simp [kind_of_isOperator hx])]
              split
              · rename_i hquestion
                exact hg.ternary hkept hx hpostfix (beq_iff_eq.1 hquestion) hsame honward hstart hroom
                  trailing
              · refine .ok (hkept.operandRounds hsame honward hstart ?_ ?_)
                · intro hlone
                  exact Bool.false_ne_true ((endsOperand_of_isOperator hx).symm.trans hlone.2.1)
                · exact hkept.later.not_beginsOperand hx hpostfix

end Operators

theorem Follows.operandRound (hg : Follows gone levels g g' depth) (trailing : Bool)
    {state state' : ExpressionNodes} {middle middle' : Cursor}
    (h : OperatorState gone levels c c' state middle state' middle')
    (hroom : 2 * c'.ahead.length ≤ depth) :
    Outcome.Follows (OperandRounds gone levels c c' middle') (g.operandRound trailing state middle)
      (g'.operandRound trailing state' middle') := by
  obtain ⟨before, habreast, hlone, hbehind⟩ := h.abreast
  have hlength := h.reaches'.length_le
  cases hnext : middle.next gone with
  | true =>
      cases habreast.meeting with
      | finished hahead =>
          rw [Cursor.next_of_nil hahead] at hnext
          exact absurd hnext Bool.false_ne_true
      | kept hkept =>
          rw [hkept.next, hkept.stays] at hnext
          exact absurd hnext Bool.false_ne_true
      | dropped hdropped =>
          have hdone : g.operandRound trailing state middle = .ok (.done state, middle) ∧
              g'.operandRound trailing state' middle' = .ok (.done state', middle') :=
            operandRound_of_dropped habreast hdropped (hbehind hnext) trailing state state'
          rw [hdone.1, hdone.2]
          exact .ok ⟨h.same, ⟨_, habreast⟩, h.reaches, h.reaches'⟩
  | false =>
      obtain ⟨hfront, before₁, h₁, hnext₁⟩ := habreast.operandPrefixLength hnext hlone
      have honward₁ : Onward gone levels c c' (middle.advanceBy (operandPrefixLength middle.ahead))
          (middle'.advanceBy (operandPrefixLength middle.ahead)) :=
        ⟨⟨_, h₁⟩, h.reaches.trans (.advanceBy _ _), h.reaches'.trans (.advanceBy _ _)⟩
      have hlength₁ := (Cursor.Reaches.advanceBy middle' (operandPrefixLength middle.ahead)).length_le
      rw [Grammar.operandRound, Grammar.operandRound, hfront]
      dsimp only
      generalize middle.advanceBy (operandPrefixLength middle.ahead) = c₁ at h₁ hnext₁ honward₁ ⊢
      generalize middle'.advanceBy (operandPrefixLength middle.ahead) = c₁' at h₁ honward₁ hlength₁ ⊢
      refine (hg.operand h₁ hnext₁ (by omega) trailing).bind ?_
      rintro ⟨_, c₂⟩ ⟨_, c₂'⟩ hoperand
      rcases hoperand with ⟨heq, heq'⟩ | ⟨more, more', rfl, rfl, houtline, honward₂, hmark₂⟩
      · obtain ⟨rfl, rfl⟩ := Prod.mk.inj heq
        obtain ⟨rfl, rfl⟩ := Prod.mk.inj heq'
        exact .ok ⟨h.same, honward₁⟩
      · obtain ⟨_, h₂⟩ := honward₂.abreast
        refine (follows_castRounds h₂ hmark₂).bind ?_
        rintro ⟨⟨⟩, c₃⟩ ⟨⟨⟩, c₃'⟩ ⟨honward₃, hmark₃⟩
        obtain ⟨_, h₃⟩ := honward₃.abreast
        have hlength₃ : c₃'.ahead.length ≤ c₁'.ahead.length :=
          (honward₂.trans honward₃).reaches'.length_le
        have hsame : SameExpression ⟨state.nodes ++ more, true⟩ ⟨state'.nodes ++ more', true⟩ :=
          ⟨h.same.nodes.append houtline, rfl⟩
        dsimp only at honward₃ hmark₃ h₃ ⊢
        exact hg.operatorRound h₃ hmark₃ hsame (honward₁.trans (honward₂.trans honward₃)) (by omega)
          (by omega) trailing

theorem Follows.expressionBody (hg : Follows gone levels g g' depth)
    (h : Abreast gone levels before c c')
    (hnext : c.next gone = false) (hlone : ¬Lone gone before c) (hroom : 2 * c'.ahead.length ≤ depth)
    (trailing : Bool) :
    Outcome.Follows (Along gone levels c c' SameExpression) (g.expressionBody trailing c)
      (g'.expressionBody trailing c') := by
  refine follows_repeatRounds (S := OperatorState gone levels c c')
    (fun _ _ _ _ _ hstate => .inr (hg.operandRound trailing hstate hroom))
    ⟨⟨.nil, rfl⟩, .refl c, .refl c', before, h, hlone, fun hgone => ?_⟩
  exact absurd (hnext.symm.trans hgone) Bool.false_ne_true

end SourceLint.Grammar
