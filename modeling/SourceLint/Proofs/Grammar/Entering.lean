import SourceLint.Proofs.Grammar.Embedding.Basic

/-!
# Where a statement begins

A statement does not look at what is before it: neither the gap before its first lexeme nor the end of
the lexeme behind the cursor makes a difference. So it is read in the same way behind a separator as at
the beginning of a text.

## Implementation notes

A production that takes its first lexeme goes on at the same cursor in both readings, and it uses nothing
of the lexeme that the gap is part of, so most equations here hold by definition. What is left are the
productions that may take no lexeme at all.
-/

namespace SourceLint

namespace Cursor

/-- The cursors are before the same lexemes, but for the gap before the next one. -/
inductive SameEntry : Cursor → Cursor → Prop
  | intro (x : Lexeme) (gap : String) (ahead : List Lexeme) (lastStop lastStop' sourceStop : Nat) :
    SameEntry ⟨x :: ahead, lastStop, sourceStop⟩ ⟨{ x with gap } :: ahead, lastStop', sourceStop⟩

/-- The results are the same, or else no lexeme has been taken. -/
def SameUnlessStalled {α : Type} (c c' : Cursor) (r r' : α × Cursor) : Prop :=
  r' = r ∨ r'.1 = r.1 ∧ r.2 = c ∧ r'.2 = c'

end Cursor

namespace Outcome

variable {α : Type} {c c' : Cursor} {x y : Outcome (α × Cursor)}

theorem Follows.same (h : y = x) : Follows (Cursor.SameUnlessStalled c c') x y := by
  rintro r rfl
  exact ⟨r, h, .inl rfl⟩

theorem Follows.stalled (a : α) : Follows (Cursor.SameUnlessStalled c c') (.ok (a, c)) (.ok (a, c')) :=
  .ok (.inr ⟨rfl, rfl, rfl⟩)

end Outcome

namespace Grammar

open Cursor (SameEntry SameUnlessStalled)

variable {g : Grammar} {c c' : Cursor}

/-! ### Repetitions -/

section Rounds

variable {σ β : Type} {round : σ → Cursor → Outcome (Round σ β × Cursor)}

/-- When no round sees the difference, a repetition does not. -/
theorem follows_boundedRounds_of_sameEntry
    (hround : ∀ state, Outcome.Follows (SameUnlessStalled c c') (round state c) (round state c'))
    {bound bound' : List Lexeme} (hbound : bound.length ≤ bound'.length) (state : σ) :
    Outcome.Follows (SameUnlessStalled c c') (boundedRounds round bound state c)
      (boundedRounds round bound' state c') := by
  intro r hr
  induction bound generalizing state bound' with
  | nil =>
      obtain hdone | ⟨_, _, _, _, hnil, -⟩ := boundedRounds_eq_ok_iff.1 hr
      · obtain ⟨⟨_, later'⟩, hdone', hsame⟩ := hround _ _ hdone
        rcases hsame with hsame | ⟨rfl, hc, rfl⟩
        · rw [hsame] at hdone'
          exact ⟨r, boundedRounds_eq_ok_iff.2 (.inl hdone'), .inl rfl⟩
        · exact ⟨(r.1, later'), boundedRounds_eq_ok_iff.2 (.inl hdone'), .inr ⟨rfl, hc, rfl⟩⟩
      · cases hnil
  | cons lexeme bound ih =>
      obtain hdone | ⟨_, _, s, later, hcons, hagain, hlater⟩ := boundedRounds_eq_ok_iff.1 hr
      · obtain ⟨⟨_, later'⟩, hdone', hsame⟩ := hround _ _ hdone
        rcases hsame with hsame | ⟨rfl, hc, rfl⟩
        · rw [hsame] at hdone'
          exact ⟨r, boundedRounds_eq_ok_iff.2 (.inl hdone'), .inl rfl⟩
        · exact ⟨(r.1, later'), boundedRounds_eq_ok_iff.2 (.inl hdone'), .inr ⟨rfl, hc, rfl⟩⟩
      · obtain ⟨-, rfl⟩ := List.cons.inj hcons
        cases bound' with
        | nil => exact absurd hbound (Nat.not_succ_le_zero _)
        | cons lexeme' bound' =>
            have hshorter := Nat.le_of_succ_le_succ hbound
            obtain ⟨⟨_, later'⟩, hagain', hsame⟩ := hround _ _ hagain
            rcases hsame with hsame | ⟨rfl, hstalled, rfl⟩
            · rw [hsame] at hagain'
              have hmore := boundedRounds_mono hlater hshorter
              exact ⟨r, boundedRounds_eq_ok_iff.2 (.inr ⟨_, _, _, _, rfl, hagain', hmore⟩), .inl rfl⟩
            · obtain rfl : later = c := hstalled
              obtain ⟨r', hr', hrelated⟩ := ih hshorter s hlater
              exact ⟨r', boundedRounds_eq_ok_iff.2 (.inr ⟨_, _, _, _, rfl, hagain', hr'⟩), hrelated⟩

theorem follows_repeatRounds_of_sameEntry (h : SameEntry c c')
    (hround : ∀ state, Outcome.Follows (SameUnlessStalled c c') (round state c) (round state c'))
    (state : σ) :
    Outcome.Follows (SameUnlessStalled c c') (repeatRounds round state c)
      (repeatRounds round state c') := by
  refine follows_boundedRounds_of_sameEntry hround ?_ state
  obtain ⟨⟩ := h
  exact Nat.le_refl _

end Rounds

/-! ### Operands -/

theorem closure_of_sameEntry (h : SameEntry c c') : g.closure c' = g.closure c := by
  obtain ⟨x, gap, ahead, lastStop, lastStop', sourceStop⟩ := h
  rw [closure, closure, Cursor.expectSymbol, Cursor.expectSymbol]
  change (if x.isSymbol _ then _ else _) >>= _ = (if x.isSymbol _ then _ else _) >>= _
  split
  · rfl
  · rfl

/-- Either there is the same operand, or there is none and no lexeme is taken. -/
theorem follows_primary_of_sameEntry (h : SameEntry c c') :
    Outcome.Follows (fun r r' => r' = r ∨ r = (none, c) ∧ r' = (none, c')) (g.primary c)
      (g.primary c') := by
  have hclosure := closure_of_sameEntry (g := g) h
  obtain ⟨⟨kind, oldGap, start, text⟩, gap, ahead, lastStop, lastStop', sourceStop⟩ := h
  have hmember : atMember ⟨⟨kind, gap, start, text⟩ :: ahead, lastStop', sourceStop⟩ =
      atMember ⟨⟨kind, oldGap, start, text⟩ :: ahead, lastStop, sourceStop⟩ := rfl
  rw [primary, primary, hclosure, hmember]
  dsimp only [Cursor.peek?, List.head?_cons]
  cases kind with
  | token kind =>
      cases kind with
      | identifier | string | other => exact .ok (.inl rfl)
      | comment => exact .ok (.inr ⟨rfl, rfl⟩)
      | keyword =>
          dsimp only
          split
          · exact .ok (.inl rfl)
          · exact .ok (.inr ⟨rfl, rfl⟩)
  | punctuation =>
      dsimp only
      split
      · exact fun r hr => ⟨r, hr, .inl rfl⟩
      · split
        · exact fun r hr => ⟨r, hr, .inl rfl⟩
        · split
          · exact fun r hr => ⟨r, hr, .inl rfl⟩
          · split
            · split
              · exact .ok (.inl rfl)
              · exact .ok (.inr ⟨rfl, rfl⟩)
            · split
              · exact .ok (.inl rfl)
              · exact .ok (.inr ⟨rfl, rfl⟩)

/-- A call has the same name, whatever is before it. -/
theorem callNode_of_sameEntry (h : SameEntry c c') : callNode c' = callNode c := by
  obtain ⟨x, gap, ahead, lastStop, lastStop', sourceStop⟩ := h
  have hspelling : ∀ n, Lexeme.spelling (({ x with gap } :: ahead).take n) =
      Lexeme.spelling ((x :: ahead).take n) := by
    rintro (_ | n)
    · rfl
    · rfl
  funext callee stop children
  rw [callNode, callNode, Cursor.lexemesTo, hspelling]
  rfl

theorem suffixRound_of_sameEntry (h : SameEntry c c') (trailing : Bool) :
    g.suffixRound trailing c' = g.suffixRound trailing c := by
  funext state d
  simp only [suffixRound, attachClosure, callNode_of_sameEntry h]

theorem follows_operand_of_sameEntry (h : SameEntry c c') (trailing : Bool) :
    Outcome.Follows (fun r r' => r' = r ∨ r = (none, c) ∧ r' = (none, c')) (g.operand trailing c)
      (g.operand trailing c') := by
  rw [operand, operand, suffixRound_of_sameEntry h]
  refine (follows_primary_of_sameEntry h).bind ?_
  rintro _ r (rfl | ⟨rfl, rfl⟩)
  · obtain ⟨_ | nodes, later⟩ := r
    · exact .ok (.inl rfl)
    · exact fun r hr => ⟨r, hr, .inl rfl⟩
  · exact .ok (.inr ⟨rfl, rfl⟩)

theorem follows_operandRound_of_sameEntry (h : SameEntry c c') (trailing : Bool)
    (state : ExpressionNodes) :
    Outcome.Follows (SameUnlessStalled c c') (g.operandRound trailing state c)
      (g.operandRound trailing state c') := by
  have hfront : operandPrefixLength c'.ahead = operandPrefixLength c.ahead := by
    obtain ⟨x, gap, ahead, lastStop, lastStop', sourceStop⟩ := h
    cases ahead with
    | nil => rfl
    | cons y ahead => rfl
  rw [operandRound, operandRound, hfront]
  cases operandPrefixLength c.ahead with
  | zero =>
      refine (follows_operand_of_sameEntry h trailing).bind ?_
      rintro r _ (rfl | ⟨rfl, rfl⟩)
      · exact .same rfl
      · exact .stalled _
  | succ n =>
      obtain ⟨x, gap, ahead, lastStop, lastStop', sourceStop⟩ := h
      exact .same rfl

/-- No lexeme is taken unless there is an expression. -/
theorem follows_expressionBody_of_sameEntry (h : SameEntry c c') (trailing : Bool) :
    Outcome.Follows (SameUnlessStalled c c') (g.expressionBody trailing c)
      (g.expressionBody trailing c') :=
  follows_repeatRounds_of_sameEntry h (follows_operandRound_of_sameEntry h trailing) _

/-! ### Modifiers -/

theorem follows_modifiers_of_sameEntry (h : SameEntry c c') :
    Outcome.Follows (SameUnlessStalled c c') (modifiers c) (modifiers c') := by
  refine follows_repeatRounds_of_sameEntry h (fun attributes => ?_) _
  obtain ⟨x, gap, ahead, lastStop, lastStop', sourceStop⟩ := h
  have hkind : modifierKind? ⟨{ x with gap } :: ahead, lastStop', sourceStop⟩ =
      modifierKind? ⟨x :: ahead, lastStop, sourceStop⟩ := by
    cases ahead with
    | nil => rfl
    | cons y ahead => rfl
  rw [modifierRound, modifierRound, hkind]
  cases modifierKind? ⟨x :: ahead, lastStop, sourceStop⟩ with
  | none => exact .stalled _
  | some kind => exact .same rfl

/-! ### Statements -/

theorem skipStatementLabel_of_sameEntry (h : SameEntry c c') :
    skipStatementLabel c' = skipStatementLabel c ∨
      skipStatementLabel c = c ∧ skipStatementLabel c' = c' := by
  obtain ⟨x, gap, ahead, lastStop, lastStop', sourceStop⟩ := h
  rw [skipStatementLabel, skipStatementLabel]
  by_cases hlabel : ((⟨x :: ahead, lastStop, sourceStop⟩ : Cursor).next Lexeme.isIdentifier &&
      ((⟨x :: ahead, lastStop, sourceStop⟩ : Cursor).peekAt? 1).any (fun l => l.isSymbol ":") &&
      ((⟨x :: ahead, lastStop, sourceStop⟩ : Cursor).peekAt? 2).any
        fun l => ["for", "while", "repeat", "switch", "if", "do"].any l.isKeyword) = true
  · exact .inl ((if_pos hlabel).trans (if_pos hlabel).symm)
  · exact .inr ⟨if_neg hlabel, if_neg hlabel⟩

/-- The grammar sees no difference between cursors before the same lexemes. -/
structure EntersAlike (g : Grammar) : Prop where
  ifStatement : ∀ {c c'}, SameEntry c c' → g.ifStatement c' = g.ifStatement c
  expression : ∀ {c c'}, SameEntry c c' → ∀ trailing, Outcome.Follows (SameUnlessStalled c c')
    (g.expression trailing c) (g.expression trailing c')

theorem entersAlike_ofDepth (depth : Nat) : EntersAlike (ofDepth depth) := by
  cases depth with
  | zero => exact ⟨fun _ => rfl, fun _ _ => Outcome.follows_error _⟩
  | succ depth =>
      constructor
      · rintro _ _ ⟨x, gap, ahead, lastStop, lastStop', sourceStop⟩
        rfl
      · exact follows_expressionBody_of_sameEntry

theorem EntersAlike.expressionStatement (hg : EntersAlike g) (h : SameEntry c c') :
    Outcome.Follows (SameUnlessStalled c c') (g.expressionStatement c) (g.expressionStatement c') := by
  rw [Grammar.expressionStatement, Grammar.expressionStatement]
  refine (hg.expression h true).bind ?_
  rintro ⟨found, later⟩ ⟨found', later'⟩ (hsame | ⟨rfl, rfl, rfl⟩)
  · rw [hsame]
    exact .same rfl
  · exact .stalled _

/-- A statement that begins with a keyword takes it, unless the keyword begins an expression. -/
theorem EntersAlike.keywordStatement (hg : EntersAlike g) (x : Lexeme) (gap : String)
    (ahead : List Lexeme) (lastStop lastStop' sourceStop : Nat) (scope : Scope)
    (attributes : List Attribute) :
    Outcome.Follows
      (SameUnlessStalled ⟨x :: ahead, lastStop, sourceStop⟩
        ⟨{ x with gap } :: ahead, lastStop', sourceStop⟩)
      (g.keywordStatement scope attributes x ⟨x :: ahead, lastStop, sourceStop⟩)
      (g.keywordStatement scope attributes { x with gap }
        ⟨{ x with gap } :: ahead, lastStop', sourceStop⟩) := by
  have h : SameEntry _ _ := ⟨x, gap, ahead, lastStop, lastStop', sourceStop⟩
  rw [Grammar.keywordStatement, Grammar.keywordStatement, hg.ifStatement h]
  dsimp only
  split
  case h_3 | h_4 | h_5 | h_6 =>
    refine .same ?_
    rw [function, functionName, function, functionName]
    dsimp only
    split
    · rfl
    · rfl
  case h_31 => exact hg.expressionStatement h
  all_goals exact .same rfl

theorem EntersAlike.statement (hg : EntersAlike g) (h : SameEntry c c') (scope : Scope) :
    Outcome.Follows (SameUnlessStalled c c') (g.statement scope c) (g.statement scope c') := by
  rw [Grammar.statement, Grammar.statement]
  obtain hlabel | ⟨hlabel, hlabel'⟩ := skipStatementLabel_of_sameEntry h
  · rw [hlabel]
    exact .same rfl
  · rw [hlabel, hlabel']
    refine (follows_modifiers_of_sameEntry h).bind ?_
    rintro ⟨attributes, later⟩ ⟨attributes', later'⟩ (hsame | ⟨rfl, rfl, rfl⟩)
    · rw [hsame]
      exact .same rfl
    · have hexpression := hg.expressionStatement h
      obtain ⟨⟨kind, oldGap, start, text⟩, gap, ahead, lastStop, lastStop', sourceStop⟩ := h
      dsimp only [Cursor.peek?, List.head?_cons]
      cases kind with
      | punctuation => exact hexpression
      | token kind =>
          cases kind with
          | identifier | string | comment => exact hexpression
          | keyword => exact hg.keywordStatement _ gap ahead lastStop lastStop' sourceStop scope _
          | other =>
              dsimp only
              split
              · exact .same rfl
              · exact hexpression

/-- A statement, or a separator, is read in the same way whatever is before it. -/
theorem EntersAlike.statementRound (hg : EntersAlike g) (h : SameEntry c c') (scope : Scope)
    (inSwitch : Bool) (nodes : List Node) :
    Outcome.Follows (SameUnlessStalled c c') (g.statementRound scope inSwitch nodes c)
      (g.statementRound scope inSwitch nodes c') := by
  have hstatement := hg.statement h scope
  obtain ⟨⟨kind, oldGap, start, text⟩, gap, ahead, lastStop, lastStop', sourceStop⟩ := h
  have hkeyword : ∀ word, Lexeme.isKeyword ⟨kind, gap, start, text⟩ word =
      Lexeme.isKeyword ⟨kind, oldGap, start, text⟩ word := fun _ => rfl
  have hsymbol : ∀ symbol, Lexeme.isSymbol ⟨kind, gap, start, text⟩ symbol =
      Lexeme.isSymbol ⟨kind, oldGap, start, text⟩ symbol := fun _ => rfl
  have hcloser : Lexeme.isCloser ⟨kind, gap, start, text⟩ =
      Lexeme.isCloser ⟨kind, oldGap, start, text⟩ := rfl
  rw [Grammar.statementRound, Grammar.statementRound]
  dsimp only [Cursor.peek?, List.head?_cons]
  rw [hkeyword, hkeyword, hsymbol, hsymbol, hcloser]
  split
  · exact .stalled _
  · split
    · exact .same rfl
    · split
      · exact Outcome.follows_error _
      · refine hstatement.bind ?_
        rintro ⟨more, later⟩ ⟨more', later'⟩ (hsame | ⟨rfl, rfl, rfl⟩)
        · rw [hsame]
          exact .same rfl
        · dsimp only
          have hstalled : ∀ c : Cursor, c.hasStalled c = true := fun _ => beq_self_eq_true _
          rw [hstalled, hstalled]
          exact .same rfl

/-- Statements are read in the same way whatever is before the first one. -/
theorem EntersAlike.statementsBody (hg : EntersAlike g) (h : SameEntry c c') (scope : Scope)
    (inSwitch : Bool) :
    Outcome.Follows (SameUnlessStalled c c') (g.statementsBody scope inSwitch c)
      (g.statementsBody scope inSwitch c') :=
  follows_repeatRounds_of_sameEntry h (hg.statementRound h scope inSwitch) _

end Grammar

end SourceLint
