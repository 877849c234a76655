import SourceLint.Proofs.Grammar.Levels.Declarations

/-!
# Statements with more levels of nesting

From the statements the grammars of all depths follow: each one has the outcomes of the ones below it, as far
as those have outcomes.

## Main results

* `Grammar.Persists.deeper` — one more level on both sides.
* `Grammar.persists_ofDepth` — the deeper of two grammars has the outcomes of the other one.
-/

namespace SourceLint.Grammar

variable {g g' : Grammar} {c : Cursor}

/-! ### Conditions -/

theorem Persists.clause (hg : g.Persists g') (c : Cursor) : (g.clause c).Persists (g'.clause c) := by
  rw [Grammar.clause, Grammar.clause]
  refine .ite ?_ ?_
  · refine (Outcome.Persists.refl (skipBinding c.advance)).bind fun afterBinding => ?_
    refine (Outcome.Persists.refl afterBinding.skipDeclaredType).bind fun afterType => ?_
    exact .ite ((hg.expression false afterType.advance).bind fun _ => .refl _) (.refl _)
  · exact (hg.expression false _).bind fun _ => .refl _

theorem Persists.conditionRound (hg : g.Persists g') (state : List Node × List Element) (c : Cursor) :
    (g.conditionRound state c).Persists (g'.conditionRound state c) :=
  (hg.clause c).bind fun _ => .refl _

theorem Persists.conditions (hg : g.Persists g') (c : Cursor) :
    (g.conditions c).Persists (g'.conditions c) :=
  persists_repeatRounds hg.conditionRound ([], []) c

/-! ### Loops -/

theorem Persists.whereClause (hg : g.Persists g') (c : Cursor) :
    (g.whereClause c).Persists (g'.whereClause c) := by
  rw [Grammar.whereClause, Grammar.whereClause]
  exact .ite ((hg.expression false c.advance).bind fun _ => .refl _) (.refl _)

theorem Persists.forEach (hg : g.Persists g') (keyword : Lexeme) (c : Cursor) :
    (g.forEach keyword c).Persists (g'.forEach keyword c) := by
  rw [Grammar.forEach, Grammar.forEach]
  refine (Outcome.Persists.refl (skipLoopPattern _ _ _ _ _)).bind fun pattern => ?_
  refine (hg.expression false _).bind fun sequence => ?_
  refine .ite (.refl _) ?_
  refine (hg.whereClause sequence.2).bind fun condition => ?_
  exact (hg.block condition.2).bind fun _ => .refl _

theorem Persists.whileLoop (hg : g.Persists g') (keyword : Lexeme) (c : Cursor) :
    (g.whileLoop keyword c).Persists (g'.whileLoop keyword c) := by
  rw [Grammar.whileLoop, Grammar.whileLoop]
  refine (hg.conditions c.advance).bind fun condition => ?_
  exact (hg.block condition.2).bind fun _ => .refl _

theorem Persists.repeatWhile (hg : g.Persists g') (keyword : Lexeme) (c : Cursor) :
    (g.repeatWhile keyword c).Persists (g'.repeatWhile keyword c) := by
  rw [Grammar.repeatWhile, Grammar.repeatWhile]
  refine (hg.block c.advance).bind fun body => ?_
  refine (Outcome.Persists.refl (body.2.expectKeyword "while")).bind fun afterWord => ?_
  exact (hg.conditions afterWord).bind fun _ => .refl _

/-! ### Branches -/

theorem Persists.elseBranch (hg : g.Persists g') (c : Cursor) :
    (g.elseBranch c).Persists (g'.elseBranch c) := by
  rw [Grammar.elseBranch, Grammar.elseBranch]
  refine .ite (.ite ?_ ?_) (.refl _)
  · exact (hg.ifStatement c.advance).bind fun _ => .refl _
  · exact (hg.block c.advance).bind fun _ => .refl _

theorem Persists.ifBody (hg : g.Persists g') (c : Cursor) : (g.ifBody c).Persists (g'.ifBody c) := by
  rw [Grammar.ifBody, Grammar.ifBody]
  refine (hg.conditions c.advance).bind fun condition => ?_
  refine (hg.block condition.2).bind fun body => ?_
  exact (hg.elseBranch body.2).bind fun _ => .refl _

theorem Persists.guardStatement (hg : g.Persists g') (keyword : Lexeme) (c : Cursor) :
    (g.guardStatement keyword c).Persists (g'.guardStatement keyword c) := by
  rw [Grammar.guardStatement, Grammar.guardStatement]
  refine (hg.conditions c.advance).bind fun condition => ?_
  refine (Outcome.Persists.refl (condition.2.expectKeyword "else")).bind fun afterWord => ?_
  exact (hg.block afterWord).bind fun _ => .refl _

theorem Persists.caseRound (hg : g.Persists g') (nodes : List Node) (c : Cursor) :
    (g.caseRound nodes c).Persists (g'.caseRound nodes c) := by
  rw [Grammar.caseRound, Grammar.caseRound]
  cases c.peek? with
  | none => exact .refl _
  | some lexeme =>
      refine .ite (.refl _) ?_
      refine (Outcome.Persists.refl (skipCaseLabel c)).bind fun afterLabel => ?_
      exact (hg.statements .functionBody true afterLabel).bind fun _ => .refl _

theorem Persists.switchStatement (hg : g.Persists g') (keyword : Lexeme) (c : Cursor) :
    (g.switchStatement keyword c).Persists (g'.switchStatement keyword c) := by
  rw [Grammar.switchStatement, Grammar.switchStatement]
  refine (hg.expression false c.advance).bind fun subject => ?_
  refine .ite (.refl _) ?_
  refine (Outcome.Persists.refl (subject.2.expectSymbol _ _)).bind fun opening => ?_
  exact (persists_repeatRounds hg.caseRound [] opening.2).bind fun _ => .refl _

theorem Persists.catchRound (hg : g.Persists g') (nodes : List Node) (c : Cursor) :
    (g.catchRound nodes c).Persists (g'.catchRound nodes c) := by
  rw [Grammar.catchRound, Grammar.catchRound]
  refine .ite ?_ (.refl _)
  refine (Outcome.Persists.refl c.advance.skipToBrace).bind fun atBrace => ?_
  exact (hg.block atBrace).bind fun _ => .refl _

theorem Persists.doStatement (hg : g.Persists g') (c : Cursor) :
    (g.doStatement c).Persists (g'.doStatement c) :=
  (hg.block c.advance).bind fun body => persists_repeatRounds hg.catchRound [body.1] body.2

/-! ### Single statements -/

theorem Persists.jumpValue (hg : g.Persists g') (c : Cursor) :
    (g.jumpValue c).Persists (g'.jumpValue c) := by
  rw [Grammar.jumpValue, Grammar.jumpValue]
  exact .ite ((hg.expression true c).bind fun _ => .refl _) (.refl _)

theorem Persists.expressionStatement (hg : g.Persists g') (c : Cursor) :
    (g.expressionStatement c).Persists (g'.expressionStatement c) :=
  (hg.expression true c).bind fun _ => .refl _

theorem Persists.keywordStatement (hg : g.Persists g') (scope : Scope) (attributes : List Attribute)
    (keyword : Lexeme) (c : Cursor) :
    (g.keywordStatement scope attributes keyword c).Persists
      (g'.keywordStatement scope attributes keyword c) := by
  rw [Grammar.keywordStatement, Grammar.keywordStatement]
  split
  case h_1 | h_2 => exact hg.bindings scope attributes c
  case h_3 | h_4 | h_5 | h_6 => exact hg.function scope attributes keyword c
  case h_7 | h_8 | h_9 | h_10 | h_11 | h_12 => exact hg.typeDeclaration attributes keyword c
  case h_13 => exact hg.forEach keyword c
  case h_14 => exact hg.whileLoop keyword c
  case h_15 => exact hg.repeatWhile keyword c
  case h_16 => exact (hg.ifStatement c).bind fun _ => .refl _
  case h_17 => exact hg.guardStatement keyword c
  case h_18 => exact hg.switchStatement keyword c
  case h_19 => exact hg.doStatement c
  case h_20 => exact (hg.block c.advance).bind fun _ => .refl _
  case h_21 | h_22 => exact hg.jumpValue c.advance
  case h_23 | h_24 | h_25 | h_26 | h_27 | h_28 | h_29 | h_30 => exact .refl _
  case h_31 => exact hg.expressionStatement c

theorem Persists.statement (hg : g.Persists g') (scope : Scope) (c : Cursor) :
    (g.statement scope c).Persists (g'.statement scope c) := by
  rw [Grammar.statement, Grammar.statement]
  refine (Outcome.Persists.refl (modifiers (skipStatementLabel c))).bind fun modified => ?_
  dsimp only
  cases modified.2.peek? with
  | none => exact .refl _
  | some lexeme =>
      dsimp only
      cases lexeme.kind with
      | punctuation => exact hg.expressionStatement modified.2
      | token kind =>
          cases kind with
          | keyword => exact hg.keywordStatement scope modified.1 lexeme modified.2
          | other => exact .ite (.refl _) (hg.expressionStatement modified.2)
          | identifier | string | comment => exact hg.expressionStatement modified.2

theorem Persists.statementRound (hg : g.Persists g') (scope : Scope) (inSwitch : Bool) (nodes : List Node)
    (c : Cursor) :
    (g.statementRound scope inSwitch nodes c).Persists (g'.statementRound scope inSwitch nodes c) := by
  rw [Grammar.statementRound, Grammar.statementRound]
  cases c.peek? with
  | none => exact .refl _
  | some lexeme =>
      refine .ite (.refl _) (.ite (.refl _) (.ite (.refl _) ?_))
      exact (hg.statement scope c).bind fun _ => .refl _

theorem Persists.statementsBody (hg : g.Persists g') (scope : Scope) (inSwitch : Bool) (c : Cursor) :
    (g.statementsBody scope inSwitch c).Persists (g'.statementsBody scope inSwitch c) :=
  persists_repeatRounds (hg.statementRound scope inSwitch) [] c

/-! ### Depths -/

theorem persists_exhausted (g : Grammar) : exhausted.Persists g where
  statements _ _ _ := Outcome.persists_exhausted _
  expression _ _ := Outcome.persists_exhausted _
  ifStatement _ := Outcome.persists_exhausted _

theorem Persists.deeper (hg : g.Persists g') : g.deeper.Persists g'.deeper where
  statements := hg.statementsBody
  expression := hg.expressionBody
  ifStatement := hg.ifBody

/-- Of two grammars of the same kind the deeper one has the outcomes of the other one. -/
theorem persists_ofDepth {depth depth' : Nat} (h : depth ≤ depth') :
    (ofDepth depth).Persists (ofDepth depth') := by
  induction depth generalizing depth' with
  | zero => exact persists_exhausted _
  | succ depth ih =>
      cases depth' with
      | zero => exact absurd h (Nat.not_succ_le_zero _)
      | succ depth' => exact (ih (Nat.le_of_succ_le_succ h)).deeper

end SourceLint.Grammar
