import SourceLint.Proofs.Grammar.Embedding.Groups

/-!
# Expressions inside another text

Operands with what stands behind them, and the operators between operands. A separator is neither, so an
expression that reaches the end of the text ends there in the other text too.
-/

namespace SourceLint.Embedding

open Grammar (callNode attachClosure operandPrefixLength atMember)

variable {e : Embedding} {c c' d d' : Cursor} {x y : Lexeme} {lexemes others : List Lexeme}
    {g g' : Grammar}

/-! ### Operands -/

/-- A member is named in both texts. -/
theorem Beside.atMember_eq (h : e.Beside c c') : atMember c' = atMember c := by
  rw [atMember, atMember, h.atSymbol_eq (by decide)]
  cases h.meeting with
  | finished hahead =>
      rw [Cursor.atSymbol, Cursor.next_of_nil hahead, Bool.false_and, Bool.false_and]
  | both hpeek hpeek' htwin hnext htaken =>
      rw [Cursor.peekAt?_one hpeek, Cursor.peekAt?_one hpeek']
      refine congrArg _ (hnext.next_eq (fun x y htwin => ?_) fun separator hsemicolon _ => ?_)
      · rw [htwin.isMemberName, htwin.isApart]
      · rw [Lexeme.isMemberName, Grammar.isWord_of_semicolon hsemicolon,
          (Lexeme.isSymbol_iff.1 hsemicolon).1]
        rfl

theorem Beside.onward_member (h : e.Beside c c') (hmember : atMember c = true) :
    e.Onward c (c.advanceBy 2) (c'.advanceBy 2) := by
  rw [atMember, Bool.and_eq_true] at hmember
  obtain ⟨x, hpeek⟩ := Cursor.exists_peek?_of_next hmember.1
  rw [Cursor.peekAt?_one hpeek] at hmember
  have honward := h.onward_advance (ahead_ne_nil hpeek)
  exact honward.trans (honward.1.onward_advance (ahead_ne_nil_of_next hmember.2))

/-- No operand stands at a separator. -/
theorem primary_rest (hahead : c'.ahead = e.rest) : g.primary c' = .ok (none, c') := by
  rcases peek?_rest hahead with hpeek | ⟨separator, hpeek, hsemicolon, -⟩
  · rw [Grammar.primary, hpeek]
  · exact (Grammar.primary_of_separator hpeek (.inl hsemicolon)).2

/-- The nodes of an operand in the other text. An operand begins with a lexeme. -/
def AlongOperand (e : Embedding) (c : Cursor) (r r' : Option (List Node) × Cursor) : Prop :=
  e.Along (Option.map e.nodes) c r r' ∧ (r.1.isSome = true → c.ahead ≠ [])

theorem Follows.primary (hg : e.Follows g g') (h : e.Beside c c') :
    Outcome.Follows (e.AlongOperand c) (g.primary c) (g'.primary c') := by
  have hnone : Outcome.Follows (e.AlongOperand c)
      (.ok (none, c) : Outcome (Option (List Node) × Cursor)) (.ok (none, c')) :=
    .ok ⟨⟨rfl, h.onward⟩, fun hsome => Bool.noConfusion hsome⟩
  cases h.meeting with
  | finished hahead hahead' =>
      rw [primary_rest hahead', Grammar.primary, peek?_of_nil hahead]
      exact hnone
  | @both x y hpeek hpeek' htwin hnext htaken =>
      have hahead := ahead_ne_nil hpeek
      have honward := h.onward_advance hahead
      have hplain : Outcome.Follows (e.AlongOperand c)
          (.ok (some [], c.advance) : Outcome (Option (List Node) × Cursor))
          (.ok (some [], c'.advance)) := .ok ⟨⟨by simp, honward⟩, fun _ => hahead⟩
      rw [Grammar.primary, Grammar.primary, hpeek, hpeek']
      dsimp only
      rw [htwin.kind]
      cases hkind : x.kind with
      | token kind =>
          cases kind with
          | identifier | string | other => exact hplain
          | comment => exact hnone
          | keyword =>
              dsimp only
              rw [htwin.text_eq (by simp [hkind])]
              split
              · exact hplain
              · exact hnone
      | punctuation =>
          dsimp only
          rw [htwin.text_eq (by simp [hkind]), h.atMember_eq]
          split
          · refine (hg.arguments hnext _ _ _).bind ?_
            rintro ⟨⟨nodes, closer⟩, later⟩ ⟨⟨_, closer'⟩, later'⟩
              ⟨rfl, -, (hlater : e.Onward c.advance later later')⟩
            exact .ok ⟨⟨rfl, honward.trans hlater⟩, fun _ => hahead⟩
          · split
            · refine (hg.collection hnext htwin).bind ?_
              rintro ⟨node, later⟩ ⟨_, later'⟩ ⟨rfl, (hlater : e.Onward c.advance later later')⟩
              exact .ok ⟨⟨by simp, honward.trans hlater⟩, fun _ => hahead⟩
            · split
              · refine (hg.closure h).bind ?_
                rintro ⟨node, later⟩ ⟨_, later'⟩ ⟨⟨rfl, (hlater : e.Onward c later later')⟩, -⟩
                exact .ok ⟨⟨by simp, hlater⟩, fun _ => hahead⟩
              · split
                · split
                  · rename_i hmember
                    exact .ok ⟨⟨by simp, h.onward_member hmember⟩, fun _ => hahead⟩
                  · exact hnone
                · split
                  · exact hplain
                  · exact hnone

/-! ### Calls -/

/-- Names without their white space are the same in both texts. -/
theorem spelling_eq (h : List.Forall₂ e.Twin lexemes others) :
    Lexeme.spelling others = e.text (Lexeme.spelling lexemes) := by
  cases h with
  | nil => exact (e.text_eq "" fun _ hc => absurd hc List.not_mem_nil).symm
  | @cons x y lexemes others htwin htail =>
      have hbetween : (others.flatMap fun l => l.gap.toList ++ l.text.toList).filter
          (fun c => !isBlank c) =
            (lexemes.flatMap fun l => l.gap.toList ++ l.text.toList).filter fun c => !isBlank c := by
        induction htail with
        | nil => rfl
        | cons htwin _ ih =>
            simp only [List.flatMap_cons, List.filter_append, ih, htwin.gap, htwin.renamed,
              e.filter_text]
      have hspelling : Lexeme.spelling (y :: others) = Lexeme.spelling (x :: lexemes) := by
        simp only [Lexeme.spelling, List.filter_append, hbetween, htwin.renamed, e.filter_text]
      rw [hspelling, Lexeme.spelling, e.text_ofList_filter]

/-- The lexemes between two places are twins. -/
theorem Beside.lexemesTo (h : e.Beside c c') (h' : e.Beside d d') :
    List.Forall₂ e.Twin (c.lexemesTo d) (c'.lexemesTo d') := by
  have hlength : c'.ahead.length - d'.ahead.length = c.ahead.length - d.ahead.length := by
    rw [h.length_eq, h'.length_eq, Nat.add_sub_add_right]
  rw [Cursor.lexemesTo, Cursor.lexemesTo, hlength]
  exact h.take (Nat.sub_le _ _)

theorem callNode_eq {first first' callee callee' : Cursor} (hfirst : e.Beside first first')
    (hcallee : e.Beside callee callee') (hahead : first.ahead ≠ []) (stop : Nat)
    (children : List Node) :
    callNode first' callee' (e.offset stop) (e.nodes children) =
      e.node (callNode first callee stop children) := by
  simp [callNode, Relocation.node_eq, hfirst.here_eq hahead, hcallee.lastStop,
    spelling_eq (hfirst.lexemesTo hcallee)]

theorem attachClosure_eq {first first' : Cursor} {state state' : Grammar.OperandState}
    (hfirst : e.Beside first first') (hnodes : state'.nodes = e.nodes state.nodes)
    (hcallee : e.Beside state.callee state'.callee) (hahead : first.ahead ≠ []) {stop : Nat}
    (hstop : e.IsEnd stop) (hends : ∀ node ∈ state.nodes, e.IsEnd node.span.stop) (closure : Node) :
    attachClosure first' state' (e.offset stop) (e.node closure) =
      e.nodes (attachClosure first state stop closure) := by
  have hcall : [callNode first' state'.callee (e.node closure).span.stop
      (e.nodes state.nodes ++ [e.node closure])] =
        e.nodes [callNode first state.callee closure.span.stop (state.nodes ++ [closure])] := by
    have heq := callNode_eq hfirst hcallee hahead closure.span.stop (state.nodes ++ [closure])
    simpa using heq
  rw [attachClosure, attachClosure, hnodes, e.nodes_eq_map, List.getLast?_map]
  cases hlast : state.nodes.getLast? with
  | none =>
      rw [← e.nodes_eq_map]
      exact hcall
  | some call =>
      have hsame : ((e.node call).span.stop == e.offset stop) = (call.span.stop == stop) := by
        rw [Relocation.span_node, Relocation.stop_span, Bool.eq_iff_iff, beq_iff_eq, beq_iff_eq]
        constructor
        · exact fun h => e.offset_inj (hends call (List.mem_of_getLast? hlast)) hstop h
        · rintro rfl
          rfl
      dsimp only [Option.map_some]
      rw [Relocation.kind_node, hsame, ← e.nodes_eq_map]
      split
      · rw [Relocation.nodes_append, e.nodes_eq_map state.nodes.dropLast, List.map_dropLast,
          ← e.nodes_eq_map]
        simp [Relocation.node_eq]
      · exact hcall

/-! ### What stands behind an operand -/

/-- The operand that begins at `first` has been read as far in both texts. -/
structure OperandPair (e : Embedding) (first : Cursor) (state : Grammar.OperandState) (d : Cursor)
    (state' : Grammar.OperandState) (d' : Cursor) : Prop where
  nodes : state'.nodes = e.nodes state.nodes
  callee : e.Beside state.callee state'.callee
  onward : e.Onward first d d'

/-- What has been read behind an operand goes on, or ends it. -/
def SuffixRounds (e : Embedding) (first : Cursor) :
    Round Grammar.OperandState (List Node) × Cursor →
      Round Grammar.OperandState (List Node) × Cursor → Prop :=
  Round.Lockstep (e.OperandPair first) (e.Along e.nodes first)

theorem suffixRound_rest (hahead : c'.ahead = e.rest) (trailing : Bool) (first : Cursor)
    (state : Grammar.OperandState) :
    g.suffixRound trailing first state c' = .ok (.done state.nodes, c') := by
  rw [Grammar.suffixRound]
  rcases peek?_rest hahead with hpeek | ⟨separator, hpeek, hsemicolon, -⟩
  · rw [hpeek]
  · obtain ⟨hkind, htext⟩ := Lexeme.isSymbol_iff.1 hsemicolon
    simp [hpeek, hkind, htext, Grammar.isPostfixOperator_of_semicolon hsemicolon]

theorem Follows.suffixRound (hg : e.Follows g g') {first first' : Cursor}
    (hfirst : e.Beside first first') (hahead : first.ahead ≠ []) {state state' : Grammar.OperandState}
    (h : e.OperandPair first state d state' d')
    (hends : ∀ node ∈ state.nodes, e.IsEnd node.span.stop) (trailing : Bool) :
    Outcome.Follows (e.SuffixRounds first) (g.suffixRound trailing first state d)
      (g'.suffixRound trailing first' state' d') := by
  have hstop : Outcome.Follows (e.SuffixRounds first)
      (.ok (.done state.nodes, d) : Outcome (Round Grammar.OperandState (List Node) × Cursor))
      (.ok (.done state'.nodes, d')) := .ok ⟨h.nodes, h.onward⟩
  cases h.onward.1.meeting with
  | finished hahead hahead' =>
      rw [suffixRound_rest hahead', Grammar.suffixRound, peek?_of_nil hahead]
      exact hstop
  | @both x y hpeek hpeek' htwin hnext htaken =>
      have honward := h.onward.trans (h.onward.1.onward_advance (ahead_ne_nil hpeek))
      have hcallee : ∀ {later later' : Cursor}, e.Onward d later later' →
          Outcome.Follows (e.SuffixRounds first)
            (.ok (.again { state with callee := later }, later) :
              Outcome (Round Grammar.OperandState (List Node) × Cursor))
            (.ok (.again { state' with callee := later' }, later')) := fun hlater =>
        .ok ⟨h.nodes, hlater.1, h.onward.trans hlater⟩
      rw [Grammar.suffixRound, Grammar.suffixRound, hpeek, hpeek']
      dsimp only
      rw [htwin.kind]
      split
      · exact hstop
      · rename_i hpunctuation
        have hkind : x.kind = .punctuation := by simpa using hpunctuation
        rw [htwin.text_eq (by simp [hkind]), h.onward.1.atMember_eq, htwin.isOnNewLine, htwin.isApart,
          htwin.isPostfixOperator]
        split
        · split
          · rename_i hmember
            exact hcallee (h.onward.1.onward_member hmember)
          · exact hstop
        · split
          · refine (hg.arguments hnext _ _ _).bind ?_
            rintro ⟨⟨arguments, closer⟩, later⟩ ⟨⟨_, closer'⟩, later'⟩
              ⟨rfl, (hcloser : e.Twin closer closer'), (hlater : e.Onward d.advance later later')⟩
            refine .ok ⟨?_, h.callee, honward.trans hlater⟩
            have hcall := callNode_eq hfirst h.callee hahead closer.stop (state.nodes ++ arguments)
            rw [Relocation.nodes_append, ← h.nodes, ← hcloser.stop] at hcall
            dsimp only
            rw [hcall]
            simp [Relocation.node_eq, htwin.stop, hcloser.start]
          · split
            · refine (hg.arguments hnext _ _ _).bind ?_
              rintro ⟨⟨arguments, closer⟩, later⟩ ⟨⟨_, closer'⟩, later'⟩
                ⟨rfl, -, (hlater : e.Onward d.advance later later')⟩
              exact .ok ⟨by simp [h.nodes], hlater.1, honward.trans hlater⟩
            · split
              · refine (hg.closure h.onward.1).bind ?_
                rintro ⟨closure, later⟩ ⟨_, later'⟩ ⟨⟨rfl, (hlater : e.Onward d later later')⟩, -⟩
                refine .ok ⟨?_, h.callee, h.onward.trans hlater⟩
                dsimp only
                rw [h.onward.1.lastStop]
                exact attachClosure_eq hfirst h.nodes h.callee hahead h.onward.1.isEnd hends closure
              · split
                · exact hcallee (h.onward.1.onward_advance (ahead_ne_nil hpeek))
                · exact hstop

theorem Follows.operand (hg : e.Follows g g') (h : e.Beside c c') (trailing : Bool) :
    Outcome.Follows (e.Along (Option.map e.nodes) c) (g.operand trailing c)
      (g'.operand trailing c') := by
  rw [Grammar.operand, Grammar.operand]
  refine (hg.primary h).and_eq.bind ?_
  rintro ⟨nodes, later⟩ ⟨_, later'⟩ ⟨⟨⟨rfl, (honward : e.Onward c later later')⟩, hahead⟩, hfound, -⟩
  cases nodes with
  | none => exact .ok ⟨rfl, honward⟩
  | some nodes =>
      refine (honward.1.follows_repeatRounds
        (S := fun state d state' d' => e.OperandPair c state d state' d' ∧
          Reads c state.nodes d ∧ c.Passes d) (R := e.Along e.nodes c) ?_ ⟨⟨rfl, honward.1, honward⟩, ?_⟩).bind ?_
      · rintro state d state' d' ⟨hpair, hreads⟩
        have hends : ∀ node ∈ state.nodes, e.IsEnd node.span.stop := by
          intro node hnode
          obtain ⟨x, hx, hstop⟩ := hreads.1.ends node (Node.mem_listingAll_of_mem hnode)
          rw [hstop]
          exact h.isEnd_of_mem hx
        refine (hg.suffixRound h (hahead rfl) hpair hends trailing).and_eq.mono ?_
        rintro ⟨state | result, later⟩ ⟨state' | result', later'⟩ ⟨hrelated, hround, -⟩
        · exact ⟨hrelated, (hg.sound.suffixRound h.valid trailing hreads).of_ok hround⟩
        · exact hrelated
        · exact hrelated
        · exact hrelated
      · exact ((hg.sound.primary h.valid).of_ok hfound).2 nodes rfl
      · rintro ⟨nodes, last⟩ ⟨_, last'⟩ ⟨rfl, hlast⟩
        exact .ok ⟨rfl, hlast⟩

/-! ### Operators -/

theorem Beside.next_attached_eq (h : e.Beside c c') :
    (c'.next fun l => !l.isApart) = c.next fun l => !l.isApart :=
  h.next_eq (fun _ _ htwin => congrArg _ htwin.isApart) fun _ _ hline =>
    congrArg _ (Lexeme.isApart_of_isOnNewLine hline)

/-- As many lexemes stand before an operand. -/
theorem Beside.operandPrefixLength_eq (h : e.Beside c c') :
    operandPrefixLength c'.ahead = operandPrefixLength c.ahead ∧
      operandPrefixLength c.ahead ≤ c.ahead.length := by
  induction hn : c.ahead.length using Nat.strongRecOn generalizing c c' with
  | ind n ih =>
    subst hn
    cases h.meeting with
    | finished hahead hahead' =>
        rw [hahead]
        refine ⟨?_, Nat.zero_le _⟩
        rcases peek?_rest hahead' with hpeek' | ⟨separator, hpeek', hsemicolon, -⟩
        · rw [Cursor.peek?, List.head?_eq_none_iff] at hpeek'
          rw [hpeek']
        · exact (Grammar.primary_of_separator (g := .exhausted) hpeek' (.inl hsemicolon)).1
    | @both x y hpeek hpeek' htwin hnext htaken =>
        obtain ⟨hone, hle⟩ := ih _ htaken hnext rfl
        rw [Grammar.operandPrefixLength_of_peek? hpeek, Grammar.operandPrefixLength_of_peek? hpeek',
          htwin.isKeyword, htwin.isKeyword, htwin.isOperator, hnext.next_isPostfixOperator_eq,
          hnext.next_attached_eq]
        split
        · split
          · rename_i hmark
            have hmarked := hnext.onward_advance (ahead_ne_nil_of_next hmark)
            have htaken' := length_advance_lt (ahead_ne_nil_of_next hmark)
            obtain ⟨htwo, hle'⟩ := ih _ (Nat.lt_trans htaken' htaken) hmarked.1 rfl
            exact ⟨by rw [htwo], by omega⟩
          · exact ⟨by rw [hone], by omega⟩
        · split
          · exact ⟨by rw [hone], by omega⟩
          · exact ⟨rfl, Nat.zero_le _⟩

theorem follows_castRound (h : e.Onward c d d') :
    Outcome.Follows (e.Steps id (e.Along id c) c) (Grammar.castRound () d) (Grammar.castRound () d') := by
  rw [Grammar.castRound, Grammar.castRound, h.1.atKeyword_eq, h.1.atKeyword_eq]
  split
  · rename_i hcast
    have hahead : d.ahead ≠ [] := by
      rw [Bool.or_eq_true] at hcast
      exact hcast.elim ahead_ne_nil_of_next ahead_ne_nil_of_next
    have honward := h.1.onward_advance hahead
    have hmark := honward.trans honward.1.onward_skipPostfixOperator
    refine hmark.1.follows_skipType.bind ?_
    rintro later later' hlater
    exact .ok ⟨rfl, h.trans (hmark.trans hlater)⟩
  · exact .ok ⟨rfl, h⟩

/-- The operator behind an operand. -/
theorem Follows.operandRound (hg : e.Follows g g') (h : e.Onward c d d') (trailing : Bool)
    (state : ExpressionNodes) :
    Outcome.Follows (e.Steps e.expression (e.Along e.expression c) c)
      (g.operandRound trailing state d) (g'.operandRound trailing (e.expression state) d') := by
  obtain ⟨hfrontLength, hle⟩ := h.1.operandPrefixLength_eq
  have hfront : e.Onward c (d.advanceBy (operandPrefixLength d.ahead))
      (d'.advanceBy (operandPrefixLength d.ahead)) :=
    h.trans ⟨h.1.advanceBy hle, (Cursor.Reaches.advanceBy d _).length_le⟩
  rw [Grammar.operandRound, Grammar.operandRound, hfrontLength]
  refine (hg.operand hfront.1 trailing).bind ?_
  rintro ⟨nodes, later⟩ ⟨_, later'⟩ ⟨rfl, (hoperand : e.Onward _ later later')⟩
  cases nodes with
  | none => exact .ok ⟨rfl, hfront.trans hoperand⟩
  | some more =>
      have hstate : (⟨e.nodes state.nodes ++ e.nodes more, true⟩ : ExpressionNodes) =
          e.expression ⟨state.nodes ++ more, true⟩ := by simp [Embedding.expression]
      dsimp only [Option.map_some, Embedding.expression]
      refine (hoperand.1.follows_rounds (f := id) (R := e.Along id later) () fun _ _ _ hcast =>
        follows_castRound hcast).bind ?_
      rintro ⟨_, last⟩ ⟨_, last'⟩ ⟨-, (hcasts : e.Onward later last last')⟩
      have hlast : e.Onward c last last' := hfront.trans (hoperand.trans hcasts)
      have hdone : Outcome.Follows (e.Steps e.expression (e.Along e.expression c) c)
          (.ok (.done ⟨state.nodes ++ more, true⟩, last) :
            Outcome (Round ExpressionNodes ExpressionNodes × Cursor))
          (.ok (.done ⟨e.nodes state.nodes ++ e.nodes more, true⟩, last')) :=
        .ok ⟨hstate, hlast⟩
      cases hlast.1.meeting with
      | finished hahead hahead' =>
          rw [peek?_of_nil hahead]
          rcases peek?_rest hahead' with hpeek' | ⟨separator, hpeek', hsemicolon, -⟩
          · rw [hpeek']
            exact hdone
          · rw [hpeek']
            dsimp only
            rw [Grammar.isOperator_of_semicolon hsemicolon, Bool.not_false, Bool.true_or, if_pos rfl]
            exact hdone
      | @both x y hpeek hpeek' htwin hnext htaken =>
          have honward : e.Onward c last.advance last'.advance :=
            hlast.trans (hlast.1.onward_advance (ahead_ne_nil hpeek))
          dsimp only
          rw [hpeek, hpeek']
          dsimp only
          rw [Cursor.peekAt?_one hpeek, Cursor.peekAt?_one hpeek', htwin.isOnNewLine, htwin.isOperator]
          change Outcome.Follows _
            (if !x.isOperator || (x.isOnNewLine && last.advance.next fun l => !l.isApart) then _ else _)
            (if !x.isOperator || (x.isOnNewLine && last'.advance.next fun l => !l.isApart) then _
              else _)
          rw [hnext.next_attached_eq]
          split
          · exact hdone
          · rename_i hgoesOn
            have hoperator : x.isOperator = true := by
              cases hx : x.isOperator with
              | true => rfl
              | false => simp [hx] at hgoesOn
            rw [htwin.text_eq (by simp [Grammar.kind_of_isOperator hoperator])]
            split
            · refine (hg.expression honward.1 trailing).bind ?_
              rintro ⟨found, behind⟩ ⟨_, behind'⟩ ⟨rfl, (hfound : e.Onward _ behind behind')⟩
              have hbehind := honward.trans hfound
              have hstate' : (⟨e.nodes state.nodes ++ e.nodes more ++ e.nodes found.nodes, true⟩ :
                  ExpressionNodes) = e.expression ⟨state.nodes ++ more ++ found.nodes, true⟩ := by
                simp [Embedding.expression]
              dsimp only [Embedding.expression]
              rw [hfound.1.atSymbol_eq (by decide)]
              split
              · rename_i hcolon
                exact .ok ⟨hstate', hbehind.trans
                  (hbehind.1.onward_advance (ahead_ne_nil_of_next hcolon))⟩
              · exact .ok ⟨hstate', hbehind⟩
            · exact .ok ⟨hstate, honward⟩

theorem Follows.expressionBody (hg : e.Follows g g') (h : e.Beside c c') (trailing : Bool) :
    Outcome.Follows (e.Along e.expression c) (g.expressionBody trailing c)
      (g'.expressionBody trailing c') := by
  rw [Grammar.expressionBody, Grammar.expressionBody]
  have hrounds := h.follows_rounds (f := e.expression) (R := e.Along e.expression c)
    ⟨[], false⟩ fun state d d' honward => hg.operandRound honward trailing state
  rwa [Embedding.expression, Relocation.nodes_nil] at hrounds

end SourceLint.Embedding
