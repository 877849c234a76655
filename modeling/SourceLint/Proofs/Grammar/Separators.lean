import SourceLint.Proofs.Grammar.Abreast.Alike
import SourceLint.Proofs.Grammar.Reading

/-!
# What the grammar finds at a separator

A semicolon is no word, no operator and no delimiter, and no operand stands at it or before it. So most
productions stop there as they do at the end of the text.
-/

namespace SourceLint.Grammar

variable {g : Grammar} {c : Cursor} {lexemes : List Lexeme} {x : Lexeme}

/-! ### Kinds of lexemes -/

theorem isSymbol_ne {text other : String} (hx : x.isSymbol text = true) (hne : text ≠ other) :
    x.isSymbol other = false := by
  rw [Lexeme.isSymbol, (Lexeme.isSymbol_iff.1 hx).2, beq_false_of_ne hne, Bool.and_false]

theorem kind_of_isOperator (h : x.isOperator = true) : x.kind = .punctuation := by
  simp only [Lexeme.isOperator, Bool.and_eq_true, beq_iff_eq] at h
  exact h.1.1

theorem isSymbol_of_semicolon (h : x.isSymbol ";" = true) {text : String} (htext : text ≠ ";") :
    x.isSymbol text = false :=
  isSymbol_ne h htext.symm

theorem isKeyword_of_semicolon (h : x.isSymbol ";" = true) (word : String) :
    x.isKeyword word = false := by
  rw [Lexeme.isKeyword, (Lexeme.isSymbol_iff.1 h).1]
  rfl

theorem isWord_of_semicolon (hx : x.isSymbol ";" = true) : x.isWord = false := by
  simp [Lexeme.isWord, Lexeme.isIdentifier, (Lexeme.isSymbol_iff.1 hx).1]

theorem isCloser_of_semicolon (hx : x.isSymbol ";" = true) : x.isCloser = false := by
  simp [Lexeme.isCloser, isSymbol_of_semicolon hx]

theorem isPostfixOperator_of_semicolon (h : x.isSymbol ";" = true) : x.isPostfixOperator = false := by
  simp [Lexeme.isPostfixOperator, (Lexeme.isSymbol_iff.1 h).2]

theorem isOperator_of_semicolon (h : x.isSymbol ";" = true) : x.isOperator = false := by
  simp [Lexeme.isOperator, (Lexeme.isSymbol_iff.1 h).2, Lexeme.isOperatorChar]

theorem isAngle_of_semicolon (h : x.isSymbol ";" = true) : isAngle x = false := by
  simp [isAngle, Lexeme.beginsWith, (Lexeme.isSymbol_iff.1 h).2]

theorem signatureLength?_of_semicolon (h : x.isSymbol ";" = true) :
    signatureLength? (x :: lexemes) = none := by
  obtain ⟨hkind, htext⟩ := Lexeme.isSymbol_iff.1 h
  simp [signatureLength?, Lexeme.isKeyword, isSignaturePart, hkind, htext]

/-! ### Operands -/

theorem operandPrefixLength_of_peek? (h : c.peek? = some x) :
    operandPrefixLength c.ahead =
      if x.isKeyword "try" || x.isKeyword "await" then
        if c.advance.next Lexeme.isPostfixOperator then operandPrefixLength c.advance.advance.ahead + 2
        else operandPrefixLength c.advance.ahead + 1
      else if x.isOperator && c.advance.next fun l => !l.isApart then
        operandPrefixLength c.advance.ahead + 1
      else 0 := by
  obtain ⟨ahead, hahead⟩ := Cursor.peek?_eq_some_iff.1 h
  rw [hahead, operandPrefixLength.eq_def, Cursor.advance_of_cons hahead]
  cases ahead with
  | nil => rfl
  | cons mark others => rfl

theorem primary_of_punctuation (hpeek : c.peek? = some x) (hkind : x.kind = .punctuation)
    (htext : x.text ∉ ["(", "[", "\x7b", ".", "\\"]) : g.primary c = .ok (none, c) := by
  simp only [List.mem_cons, List.not_mem_nil, or_false, not_or] at htext
  simp [primary, hpeek, hkind, htext]

/-- A separator is no operand, and it does not stand before one. -/
theorem primary_of_separator (hpeek : c.peek? = some x)
    (hx : x.isSymbol ";" = true ∨ x.isSymbol "," = true) :
    operandPrefixLength c.ahead = 0 ∧ g.primary c = .ok (none, c) := by
  have hsymbol : x.kind = .punctuation ∧ (x.text = ";" ∨ x.text = ",") := by
    rcases hx with hx | hx
    · exact ⟨(Lexeme.isSymbol_iff.1 hx).1, .inl (Lexeme.isSymbol_iff.1 hx).2⟩
    · exact ⟨(Lexeme.isSymbol_iff.1 hx).1, .inr (Lexeme.isSymbol_iff.1 hx).2⟩
  refine ⟨?_, primary_of_punctuation hpeek hsymbol.1 ?_⟩
  · rw [operandPrefixLength_of_peek? hpeek]
    rcases hsymbol.2 with htext | htext
    all_goals simp [Lexeme.isKeyword, Lexeme.isOperator, hsymbol.1, htext, Lexeme.isOperatorChar]
  · rcases hsymbol.2 with htext | htext
    all_goals
      rw [htext]
      decide

theorem operandRound_of_primary {state : ExpressionNodes} {trailing : Bool} {later : Cursor}
    (hfront : c.advanceBy (operandPrefixLength c.ahead) = later)
    (hnone : g.primary later = .ok (none, later)) :
    g.operandRound trailing state c = .ok (.done state, later) := by
  rw [operandRound, hfront]
  simp only [operand, hnone, bind, Except.bind, pure, Except.pure]

theorem expressionBody_of_primary {trailing : Bool} {later : Cursor}
    (hfront : c.advanceBy (operandPrefixLength c.ahead) = later)
    (hnone : g.primary later = .ok (none, later)) :
    g.expressionBody trailing c = .ok (⟨[], false⟩, later) := by
  rw [expressionBody, repeatRounds, boundedRounds.eq_def, operandRound_of_primary hfront hnone]

/-- There is no expression at a semicolon. -/
theorem expressionBody_of_semicolon (hpeek : c.peek? = some x) (hx : x.isSymbol ";" = true)
    (trailing : Bool) : g.expressionBody trailing c = .ok (⟨[], false⟩, c) := by
  obtain ⟨hfront, hnone⟩ := primary_of_separator (g := g) hpeek (.inl hx)
  exact expressionBody_of_primary (by rw [hfront]; rfl) hnone

/-! ### Statements -/

/-- A semicolon between statements is taken by itself. -/
theorem statementRound_of_semicolon (hpeek : c.peek? = some x) (hx : x.isSymbol ";" = true)
    (scope : Scope) (inSwitch : Bool) (nodes : List Node) :
    g.statementRound scope inSwitch nodes c = .ok (.again nodes, c.advance) := by
  have hunknown : (x.text == "@unknown") = false := by
    rw [(Lexeme.isSymbol_iff.1 hx).2]
    decide
  rw [statementRound, hpeek]
  dsimp only
  rw [isSymbol_of_semicolon hx (by decide), isKeyword_of_semicolon hx, isKeyword_of_semicolon hx,
    hunknown, hx]
  rw [Bool.or_self, Bool.or_self, Bool.and_false, Bool.or_self, if_neg Bool.false_ne_true, if_pos rfl]

end SourceLint.Grammar
