import SourceLint.Proofs.Grammar.Levels.Basic

/-!
# Expressions with more levels of nesting

An expression has nested productions in its groups, closures and ternary operators. Which of them come next
depends on the lexemes ahead alone, so two grammars take the same way until one of them is exhausted.
-/

namespace SourceLint.Grammar

variable {g g' : Grammar} {c : Cursor}

/-! ### Groups of expressions -/

theorem Persists.expressionOrLexeme (hg : g.Persists g') (c : Cursor) :
    (g.expressionOrLexeme c).Persists (g'.expressionOrLexeme c) :=
  (hg.expression true c).bind fun _ => .refl _

theorem Persists.argumentRound (hg : g.Persists g') (opener : Lexeme) (closing : String) (nodes : List Node)
    (c : Cursor) :
    (g.argumentRound opener closing nodes c).Persists (g'.argumentRound opener closing nodes c) := by
  rw [Grammar.argumentRound, Grammar.argumentRound]
  cases c.peek? with
  | none => exact .refl _
  | some lexeme =>
      refine .ite (.refl _) (.ite (.refl _) (.ite (.refl _) (.ite (.refl _) ?_)))
      exact (hg.expressionOrLexeme c).bind fun _ => .refl _

theorem Persists.arguments (hg : g.Persists g') (opener : Lexeme) (closing : String) (c : Cursor) :
    (g.arguments opener closing c).Persists (g'.arguments opener closing c) :=
  persists_repeatRounds (hg.argumentRound opener closing) [] c

theorem Persists.itemRound (hg : g.Persists g') (opener : Lexeme) (state : List Node × Bool) (c : Cursor) :
    (g.itemRound opener state c).Persists (g'.itemRound opener state c) := by
  rw [Grammar.itemRound, Grammar.itemRound]
  dsimp only
  cases c.peek? with
  | none => exact .refl _
  | some lexeme =>
      refine .ite (.refl _) (.ite (.refl _) (.ite (.refl _) (.ite (.refl _) ?_)))
      exact (hg.expressionOrLexeme c).bind fun _ => .refl _

theorem Persists.collection (hg : g.Persists g') (opener : Lexeme) (c : Cursor) :
    (g.collection opener c).Persists (g'.collection opener c) :=
  (persists_repeatRounds (hg.itemRound opener) ([], false) c).bind fun _ => .refl _

/-! ### Closures -/

theorem Persists.captureRound (hg : g.Persists g') (opener : Lexeme) (nodes : List Node) (c : Cursor) :
    (g.captureRound opener nodes c).Persists (g'.captureRound opener nodes c) := by
  rw [Grammar.captureRound, Grammar.captureRound]
  cases c.peek? with
  | none => exact .refl _
  | some lexeme =>
      refine .ite (.refl _) (.ite (.refl _) ?_)
      refine (Outcome.Persists.refl (captureSpecifier c)).bind fun specifier => ?_
      exact .ite ((hg.expression true _).bind fun _ => .refl _) (.refl _)

theorem Persists.captureList (hg : g.Persists g') (c : Cursor) :
    (g.captureList c).Persists (g'.captureList c) := by
  rw [Grammar.captureList, Grammar.captureList]
  split
  · exact .refl _
  · exact .ite (persists_repeatRounds (hg.captureRound _) [] c.advance) (.refl _)

theorem Persists.closure (hg : g.Persists g') (c : Cursor) : (g.closure c).Persists (g'.closure c) := by
  rw [Grammar.closure, Grammar.closure]
  refine (Outcome.Persists.refl (c.expectSymbol _ _)).bind fun opening => ?_
  refine (hg.captureList opening.2).bind fun captures => ?_
  exact (hg.statements .functionBody false _).bind fun _ => .refl _

/-! ### Operands -/

theorem Persists.primary (hg : g.Persists g') (c : Cursor) : (g.primary c).Persists (g'.primary c) := by
  rw [Grammar.primary, Grammar.primary]
  split
  · exact .refl _
  · rename_i lexeme _
    split
    case h_5 =>
      refine .ite ?_ (.ite ?_ (.ite ?_ (.refl _)))
      · exact (hg.arguments lexeme ")" c.advance).bind fun _ => .refl _
      · exact (hg.collection lexeme c.advance).bind fun _ => .refl _
      · exact (hg.closure c).bind fun _ => .refl _
    all_goals exact .refl _

theorem Persists.suffixRound (hg : g.Persists g') (trailing : Bool) (first : Cursor) (state : OperandState)
    (c : Cursor) :
    (g.suffixRound trailing first state c).Persists (g'.suffixRound trailing first state c) := by
  rw [Grammar.suffixRound, Grammar.suffixRound]
  dsimp only
  cases c.peek? with
  | none => exact .refl _
  | some lexeme =>
      refine .ite (.refl _) (.ite (.refl _) (.ite ?_ (.ite ?_ (.ite ?_ (.refl _)))))
      · exact (hg.arguments lexeme ")" c.advance).bind fun _ => .refl _
      · exact (hg.arguments lexeme "]" c.advance).bind fun _ => .refl _
      · exact (hg.closure c).bind fun _ => .refl _

theorem Persists.operand (hg : g.Persists g') (trailing : Bool) (c : Cursor) :
    (g.operand trailing c).Persists (g'.operand trailing c) := by
  rw [Grammar.operand, Grammar.operand]
  refine (hg.primary c).bind ?_
  rintro ⟨_ | nodes, later⟩
  · exact .refl _
  · exact (persists_repeatRounds (hg.suffixRound trailing c) ⟨nodes, later⟩ later).bind fun _ => .refl _

/-! ### Operators -/

theorem Persists.operandRound (hg : g.Persists g') (trailing : Bool) (state : ExpressionNodes) (c : Cursor) :
    (g.operandRound trailing state c).Persists (g'.operandRound trailing state c) := by
  rw [Grammar.operandRound, Grammar.operandRound]
  refine (hg.operand trailing _).bind ?_
  rintro ⟨_ | more, afterOperand⟩
  · exact .refl _
  · refine (Outcome.Persists.refl (repeatRounds castRound () afterOperand)).bind fun casts => ?_
    dsimp only
    cases casts.2.peek? with
    | none => exact .refl _
    | some lexeme =>
        refine .ite (.refl _) (.ite ?_ (.refl _))
        exact (hg.expression trailing casts.2.advance).bind fun _ => .refl _

theorem Persists.expressionBody (hg : g.Persists g') (trailing : Bool) (c : Cursor) :
    (g.expressionBody trailing c).Persists (g'.expressionBody trailing c) :=
  persists_repeatRounds (hg.operandRound trailing) ⟨[], false⟩ c

end SourceLint.Grammar
