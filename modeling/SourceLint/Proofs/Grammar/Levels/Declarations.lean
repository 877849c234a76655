import SourceLint.Proofs.Grammar.Levels.Expressions

/-!
# Declarations with more levels of nesting
-/

namespace SourceLint.Grammar

variable {g g' : Grammar} {c : Cursor}

theorem Persists.block (hg : g.Persists g') (c : Cursor) : (g.block c).Persists (g'.block c) := by
  rw [Grammar.block, Grammar.block]
  refine (Outcome.Persists.refl (c.expectSymbol _ _)).bind fun opening => ?_
  exact (hg.statements .functionBody false opening.2).bind fun _ => .refl _

/-! ### Variables -/

theorem Persists.variableValue (hg : g.Persists g') (c : Cursor) :
    (g.variableValue c).Persists (g'.variableValue c) := by
  rw [Grammar.variableValue, Grammar.variableValue]
  refine .ite ?_ (.ite ?_ (.refl _))
  · exact (hg.expression true c.advance).bind fun _ => .refl _
  · exact (hg.block c).bind fun _ => .refl _

theorem Persists.variableRound (hg : g.Persists g') (scope : Scope) (attributes : List Attribute)
    (state : List Node × Nat) (c : Cursor) :
    (g.variableRound scope attributes state c).Persists (g'.variableRound scope attributes state c) := by
  rw [Grammar.variableRound, Grammar.variableRound]
  refine (Outcome.Persists.refl (variablePattern c)).bind fun pattern => ?_
  refine (Outcome.Persists.refl pattern.2.skipDeclaredType).bind fun afterType => ?_
  exact (hg.variableValue afterType).bind fun _ => .refl _

theorem Persists.bindings (hg : g.Persists g') (scope : Scope) (attributes : List Attribute) (c : Cursor) :
    (g.bindings scope attributes c).Persists (g'.bindings scope attributes c) :=
  persists_repeatRounds (hg.variableRound scope attributes) ([], c.here) c.advance

/-! ### Functions -/

theorem Persists.defaultValue (hg : g.Persists g') (c : Cursor) :
    (g.defaultValue c).Persists (g'.defaultValue c) := by
  rw [Grammar.defaultValue, Grammar.defaultValue]
  exact .ite ((hg.expression true c.advance).bind fun _ => .refl _) (.refl _)

theorem Persists.parameterRound (hg : g.Persists g') (opener : Lexeme) (nodes : List Node) (c : Cursor) :
    (g.parameterRound opener nodes c).Persists (g'.parameterRound opener nodes c) := by
  rw [Grammar.parameterRound, Grammar.parameterRound]
  cases c.peek? with
  | none => exact .refl _
  | some lexeme =>
      refine .ite (.refl _) (.ite (.refl _) (.ite (.refl _) ?_))
      refine (Outcome.Persists.refl (Cursor.skipDeclaredType _)).bind fun afterType => ?_
      exact (hg.defaultValue afterType).bind fun _ => .refl _

theorem Persists.parameters (hg : g.Persists g') (c : Cursor) :
    (g.parameters c).Persists (g'.parameters c) := by
  rw [Grammar.parameters, Grammar.parameters]
  cases c.peek? with
  | none => exact .refl _
  | some opener =>
      exact .ite (persists_repeatRounds (hg.parameterRound opener) [] c.advance) (.refl _)

theorem Persists.functionBody (hg : g.Persists g') (c : Cursor) :
    (g.functionBody c).Persists (g'.functionBody c) := by
  rw [Grammar.functionBody, Grammar.functionBody]
  exact .ite ((hg.block c).bind fun _ => .refl _) (.refl _)

theorem Persists.function (hg : g.Persists g') (scope : Scope) (attributes : List Attribute)
    (keyword : Lexeme) (c : Cursor) :
    (g.function scope attributes keyword c).Persists (g'.function scope attributes keyword c) := by
  rw [Grammar.function, Grammar.function]
  refine (Outcome.Persists.refl (functionName keyword c.advance)).bind fun name => ?_
  refine (Outcome.Persists.refl name.2.skipGenericParameters).bind fun afterGeneric => ?_
  refine (hg.parameters afterGeneric).bind fun parameters => ?_
  refine (Outcome.Persists.refl (skipFunctionType parameters.2)).bind fun afterType => ?_
  exact (hg.functionBody afterType).bind fun _ => .refl _

/-! ### Types -/

theorem Persists.typeDeclaration (hg : g.Persists g') (attributes : List Attribute) (keyword : Lexeme)
    (c : Cursor) :
    (g.typeDeclaration attributes keyword c).Persists (g'.typeDeclaration attributes keyword c) := by
  rw [Grammar.typeDeclaration, Grammar.typeDeclaration]
  refine .ite (.refl _) ?_
  refine (Outcome.Persists.refl (skipTypeHead _)).bind fun afterHead => ?_
  refine (Outcome.Persists.refl (afterHead.expectSymbol _ _)).bind fun opening => ?_
  exact (hg.statements .typeBody false opening.2).bind fun _ => .refl _

end SourceLint.Grammar
