import SourceLint.Grammar.Statement
import SourceLint.Proofs.Grammar.Faults.Declarations
import SourceLint.Proofs.Grammar.Statements

/-!
# Faults found in statements

With one more level of nesting the grammar has results or finds fault where it needs one level more, so the levels
that a text is given for its number of lexemes suffice for the whole text.

## Main result

* `Grammar.answers_file`: a text has a forest, or an error that is about one of its lexemes or its end.
-/

namespace SourceLint.Grammar

open Cursor (HasRoom)

variable {g : Grammar} {start c : Cursor} {budget more : Nat} {keyword : Lexeme}

/-! ### Conditions -/

theorem answers_skipBinding (h : start.Reaches c) : (skipBinding c).Answers start c.Reaches := by
  rw [skipBinding]
  split
  · exact Cursor.answers_skipGroup h
  · split
    · exact Cursor.Reaches.advance c
    · exact Outcome.answers_expected h _

theorem Handles.clause (hg : g.Handles start budget) (h : HasRoom start budget 1 c) :
    (g.clause c).Answers start fun r => c.Reaches r.2 := by
  rw [Grammar.clause]
  split
  · have hreaches₁ := Cursor.Reaches.advance c
    refine (answers_skipBinding (h.reached.trans hreaches₁)).bind fun c₂ hbinding => ?_
    have hreaches₂ := hreaches₁.trans hbinding
    refine (Cursor.answers_skipDeclaredType (h.reached.trans hreaches₂)).bind fun c₃ htype => ?_
    have hreaches₃ := hreaches₂.trans htype
    dsimp only
    split
    · have hreaches₄ := hreaches₃.trans (.advance c₃)
      apply (hg.expression (h.reaches hreaches₄) false).bind
      rintro ⟨e, later⟩ hlater
      exact hreaches₄.trans hlater
    · exact hreaches₃
  · dsimp only
    generalize hcase : (if c.atKeyword "case" then c.advance else c) = c₁
    have hreaches₁ : c.Reaches c₁ := by
      subst hcase
      split
      · exact .advance c
      · exact .refl c
    apply (hg.expression (h.reaches hreaches₁) false).bind
    rintro ⟨e, later⟩ hlater
    have hreaches := hreaches₁.trans hlater
    dsimp only
    split
    · exact hreaches
    · exact Outcome.answers_expected (h.reached.trans hreaches) _

theorem Handles.conditionRound (hg : g.Handles start budget) (h : HasRoom start budget 1 c)
    (state : List Node × List Element) :
    (g.conditionRound state c).Answers start (Round.Advances c) := by
  obtain ⟨nodes, elements⟩ := state
  rw [Grammar.conditionRound]
  apply (hg.clause h).bind
  rintro ⟨more, later⟩ hlater
  dsimp only
  split
  · rename_i hcomma
    obtain ⟨x, hpeek⟩ := Cursor.exists_peek?_of_next hcomma
    exact .of_reaches hlater (.advance hpeek)
  · exact hlater

theorem Handles.conditions (hg : g.Handles start budget) (h : HasRoom start budget 1 c) :
    (g.conditions c).Answers start fun r => c.Reaches r.2 :=
  answers_repeatRounds (fun state _ hmiddle => hg.conditionRound (h.reaches hmiddle) state) _

/-! ### Loops -/

theorem answers_skipLoopPattern {sourceStop lastStop : Nat} {ahead : List Lexeme} (depth patternStop : Nat)
    (h : start.Reaches ⟨ahead, lastStop, sourceStop⟩) :
    (skipLoopPattern sourceStop depth patternStop lastStop ahead).Answers start fun _ => True := by
  induction ahead generalizing depth patternStop lastStop with
  | nil => exact Outcome.answers_expected h _
  | cons lexeme ahead ih =>
      have hlexeme : lexeme ∈ start.ahead := h.mem_of_mem_ahead List.mem_cons_self
      have hnext : ∀ depth, (skipLoopPattern sourceStop depth lexeme.stop lexeme.stop ahead).Answers start
          fun _ => True := fun depth => ih depth lexeme.stop (h.trans (.advance _))
      unfold skipLoopPattern
      dsimp only
      split
      · trivial
      · split
        · exact Outcome.answers_expected h _
        · split
          · exact hnext _
          · split
            · split
              · exact Outcome.answers_unexpected hlexeme
              · exact hnext _
            · exact hnext _

theorem Handles.whereClause (hg : g.Handles start budget) (h : HasRoom start budget 1 c) :
    (g.whereClause c).Answers start fun r => c.Reaches r.2 := by
  rw [Grammar.whereClause]
  split
  · apply (hg.expression (h.reaches (.advance c)) false).bind
    rintro ⟨e, later⟩ hlater
    exact (Cursor.Reaches.advance c).trans hlater
  · exact Cursor.Reaches.refl c

theorem Handles.forEach (hg : g.Handles start budget) (h : HasRoom start budget 1 c) (keyword : Lexeme) :
    (g.forEach keyword c).Answers start fun r => c.Reaches r.2 := by
  rw [Grammar.forEach]
  dsimp only
  generalize hwords : c.advance.advanceBy _ = c₁
  have hreaches₁ : c.Reaches c₁ := (Cursor.Reaches.advance c).trans ⟨_, hwords.symm⟩
  have hpattern := (answers_skipLoopPattern 0 c₁.here (h.reached.trans hreaches₁)).meets
    (meets_skipLoopPattern c₁.sourceStop 0 c₁.here c₁.lastStop c₁.ahead)
  apply hpattern.bind
  rintro ⟨patternStop, c₂⟩ hreaches
  have hreaches₂ := hreaches₁.trans (hreaches.trans (.advance c₂))
  apply (hg.expression (h.reaches hreaches₂) false).bind
  rintro ⟨sequence, c₃⟩ hsequence
  have hreaches₃ := hreaches₂.trans hsequence
  dsimp only
  split
  · exact Outcome.answers_expected (h.reached.trans hreaches₃) _
  · apply (hg.whereClause (h.reaches hreaches₃)).bind
    rintro ⟨condition, c₄⟩ hcondition
    have hreaches₄ := hreaches₃.trans hcondition
    apply (hg.block (h.reaches hreaches₄)).bind
    rintro ⟨body, c₅⟩ hbody
    exact hreaches₄.trans hbody.1

theorem Handles.whileLoop (hg : g.Handles start budget) (h : HasRoom start budget 1 c) (keyword : Lexeme) :
    (g.whileLoop keyword c).Answers start fun r => c.Reaches r.2 := by
  rw [Grammar.whileLoop]
  apply (hg.conditions (h.reaches (.advance c))).bind
  rintro ⟨⟨nodes, elements⟩, c₁⟩ hconditions
  have hreaches₁ := (Cursor.Reaches.advance c).trans hconditions
  apply (hg.block (h.reaches hreaches₁)).bind
  rintro ⟨body, c₂⟩ hbody
  exact hreaches₁.trans hbody.1

theorem Handles.repeatWhile (hg : g.Handles start budget) (h : HasRoom start budget 1 c)
    (keyword : Lexeme) :
    (g.repeatWhile keyword c).Answers start fun r => c.Reaches r.2 := by
  rw [Grammar.repeatWhile]
  apply (hg.block (h.reaches (.advance c))).bind
  rintro ⟨body, c₁⟩ hbody
  have hreaches₁ := (Cursor.Reaches.advance c).trans hbody.1
  refine (Cursor.answers_expectKeyword (h.reached.trans hreaches₁) _).bind fun c₂ hkeyword => ?_
  have hreaches₂ := hreaches₁.trans hkeyword
  apply (hg.conditions (h.reaches hreaches₂)).bind
  rintro ⟨⟨nodes, elements⟩, c₃⟩ hconditions
  exact hreaches₂.trans hconditions

/-! ### Branches -/

theorem Handles.elseBranch (hg : g.Handles start budget) (h : HasRoom start budget 1 c) :
    (g.elseBranch c).Answers start fun r => c.Reaches r.2 := by
  rw [Grammar.elseBranch]
  split
  · have hinside := h.reaches (.advance c)
    dsimp only
    split
    · rename_i hif
      obtain ⟨x, hpeek⟩ := Cursor.exists_peek?_of_next hif
      apply (hg.ifStatement hinside hpeek).bind
      rintro ⟨branch, later⟩ hlater
      exact (Cursor.Reaches.advance c).trans hlater
    · apply (hg.block hinside).bind
      rintro ⟨branch, later⟩ hlater
      exact (Cursor.Reaches.advance c).trans hlater.1
  · exact Cursor.Reaches.refl c

theorem Handles.ifBody_of_advance (hg : g.Handles start budget) (hinside : HasRoom start budget 1 c.advance) :
    (g.ifBody c).Answers start fun r => c.Reaches r.2 := by
  rw [Grammar.ifBody]
  apply (hg.conditions hinside).bind
  rintro ⟨⟨nodes, elements⟩, c₁⟩ hconditions
  apply (hg.block (hinside.reaches hconditions)).bind
  rintro ⟨body, c₂⟩ hbody
  have hreaches₂ := hconditions.trans hbody.1
  apply (hg.elseBranch (hinside.reaches hreaches₂)).bind
  rintro ⟨alternative, c₃⟩ halternative
  exact (Cursor.Reaches.advance c).trans (hreaches₂.trans halternative)

theorem Handles.ifBody (hg : g.Handles start budget) (h : HasRoom start budget more c) {x : Lexeme}
    (hpeek : c.peek? = some x) :
    (g.ifBody c).Answers start fun r => c.Reaches r.2 :=
  hg.ifBody_of_advance (h.inside hpeek)

theorem Handles.guardStatement (hg : g.Handles start budget) (h : HasRoom start budget 1 c)
    (keyword : Lexeme) :
    (g.guardStatement keyword c).Answers start fun r => c.Reaches r.2 := by
  rw [Grammar.guardStatement]
  apply (hg.conditions (h.reaches (.advance c))).bind
  rintro ⟨⟨nodes, elements⟩, c₁⟩ hconditions
  have hreaches₁ := (Cursor.Reaches.advance c).trans hconditions
  refine (Cursor.answers_expectKeyword (h.reached.trans hreaches₁) _).bind fun c₂ hkeyword => ?_
  have hreaches₂ := hreaches₁.trans hkeyword
  apply (hg.block (h.reaches hreaches₂)).bind
  rintro ⟨body, c₃⟩ hbody
  exact hreaches₂.trans hbody.1

theorem answers_skipCaseLabel (h : start.Reaches c) : (skipCaseLabel c).Answers start c.Passes := by
  have hlabel : (skipCaseLabel c).Answers start fun _ => True := by
    rw [skipCaseLabel]
    dsimp only
    generalize hunknown : (if c.next (fun l => l.text == "@unknown") then c.advance else c) = c₁
    have hreached : start.Reaches c₁ := by
      subst hunknown
      split
      · exact h.trans (.advance c)
      · exact h
    split
    · exact (Cursor.answers_skipCasePattern (hreached.trans (.advance c₁))).mono fun _ _ => trivial
    · split
      · exact (Cursor.answers_expectSymbol (hreached.trans (.advance c₁)) _ _).bind fun _ _ => trivial
      · exact Outcome.answers_expected hreached _
  exact hlabel.meets (meets_skipCaseLabel c)

theorem Handles.caseRound (hg : g.Handles start budget) (h : HasRoom start budget more c) (nodes : List Node) :
    (g.caseRound nodes c).Answers start (Round.Advances c) := by
  rw [Grammar.caseRound]
  split
  · exact Cursor.Reaches.refl c
  · split
    · exact Cursor.Reaches.refl c
    · refine (answers_skipCaseLabel h.reached).bind fun c₁ hlabel => ?_
      apply (hg.statements (h.passes hlabel) _ _).bind
      rintro ⟨children, c₂⟩ hchildren
      exact hlabel.trans_reaches hchildren

theorem Handles.switchStatement (hg : g.Handles start budget) (h : HasRoom start budget 1 c)
    (keyword : Lexeme) :
    (g.switchStatement keyword c).Answers start fun r => c.Reaches r.2 := by
  rw [Grammar.switchStatement]
  apply (hg.expression (h.reaches (.advance c)) false).bind
  rintro ⟨subject, c₁⟩ hsubject
  have h₁ := h.reaches ((Cursor.Reaches.advance c).trans hsubject)
  dsimp only
  split
  · exact Outcome.answers_expected h₁.reached _
  · apply (Cursor.answers_expectSymbol h₁.reached _ _).bind
    rintro ⟨opener, c₂⟩ ⟨hpasses, hopener⟩
    have h₂ := h₁.reaches hpasses.1
    refine (answers_repeatRounds (fun nodes _ hmiddle => hg.caseRound (h₂.reaches hmiddle) nodes) []).bind ?_
    rintro ⟨clauses, c₃⟩ hclauses
    apply (Cursor.answers_expectCloser (h₂.reaches hclauses).reached _ hopener).bind
    rintro ⟨closer, c₄⟩ hcloser
    exact ((Cursor.Reaches.advance c).trans hsubject).trans (hpasses.1.trans (hclauses.trans hcloser.1))

theorem Handles.catchRound (hg : g.Handles start budget) (h : HasRoom start budget more c)
    (nodes : List Node) :
    (g.catchRound nodes c).Answers start (Round.Advances c) := by
  rw [Grammar.catchRound]
  split
  · rename_i hcatch
    obtain ⟨x, hpeek⟩ := Cursor.exists_peek?_of_next hcatch
    refine (Cursor.answers_skipToBrace (h.inside hpeek).reached).bind fun c₁ hbrace => ?_
    have hpass := (Cursor.Passes.advance hpeek).trans_reaches hbrace
    apply (hg.block (h.reaches hpass.1)).bind
    rintro ⟨body, c₂⟩ hbody
    exact hpass.trans_reaches hbody.1
  · exact Cursor.Reaches.refl c

theorem Handles.doStatement (hg : g.Handles start budget) (h : HasRoom start budget 1 c) :
    (g.doStatement c).Answers start fun r => c.Reaches r.2 := by
  have hinside := h.reaches (.advance c)
  rw [Grammar.doStatement]
  apply (hg.block hinside).bind
  rintro ⟨body, c₁⟩ hbody
  refine (answers_repeatRounds (fun nodes _ hmiddle => hg.catchRound
    (hinside.reaches (hbody.1.trans hmiddle)) nodes) [body]).mono ?_
  exact fun _ hlater => (Cursor.Reaches.advance c).trans (hbody.1.trans hlater)

/-! ### Single statements -/

theorem Handles.expressionStatement (hg : g.Handles start budget) (h : HasRoom start budget 1 c) :
    (g.expressionStatement c).Answers start fun r => c.Reaches r.2 :=
  (hg.expression h true).bind fun _ hlater => hlater

theorem Handles.jumpValue (hg : g.Handles start budget) (h : HasRoom start budget 1 c) :
    (g.jumpValue c).Answers start fun r => c.Reaches r.2 := by
  rw [Grammar.jumpValue]
  split
  · exact hg.expressionStatement h
  · exact Cursor.Reaches.refl c

theorem answers_skippedLine (h : start.Reaches c) :
    Outcome.Answers start (fun r : List Node × Cursor => c.Reaches r.2) (do return ([], ← c.skipLine)) :=
  (Cursor.answers_skipLine h).bind fun _ hlater => hlater

theorem Handles.keywordStatement (hg : g.Handles start budget) (h : HasRoom start budget 1 c)
    (scope : Scope) (attributes : List Attribute) (hpeek : c.peek? = some keyword) :
    (g.keywordStatement scope attributes keyword c).Answers start fun r => c.Reaches r.2 := by
  have hjump : (g.jumpValue c.advance).Answers start fun r => c.Reaches r.2 :=
    (hg.jumpValue (h.reaches (.advance c))).mono fun _ hlater => (Cursor.Reaches.advance c).trans hlater
  have hlabel : Outcome.Answers start (fun r : List Node × Cursor => c.Reaches r.2)
      (.ok ([], skipJumpLabel c.advance)) :=
    (Cursor.Reaches.advance c).trans (reaches_skipJumpLabel c.advance)
  rw [Grammar.keywordStatement]
  split
  case h_1 | h_2 => exact hg.bindings h scope attributes
  case h_3 | h_4 | h_5 | h_6 => exact hg.function h scope attributes keyword
  case h_7 | h_8 | h_9 | h_10 | h_11 | h_12 =>
    exact hg.typeDeclaration h attributes keyword
  case h_13 => exact hg.forEach h keyword
  case h_14 => exact hg.whileLoop h keyword
  case h_15 => exact hg.repeatWhile h keyword
  case h_16 => exact (hg.ifStatement h hpeek).bind fun _ hlater => hlater
  case h_17 => exact hg.guardStatement h keyword
  case h_18 => exact hg.switchStatement h keyword
  case h_19 => exact hg.doStatement h
  case h_20 =>
    exact (hg.block (h.reaches (.advance c))).bind
      fun _ hlater => (Cursor.Reaches.advance c).trans hlater.1
  case h_21 | h_22 => exact hjump
  case h_23 | h_24 | h_25 => exact hlabel
  case h_26 | h_27 | h_28 | h_29 | h_30 => exact answers_skippedLine h.reached
  case h_31 => exact hg.expressionStatement h

theorem Handles.statement (hg : g.Handles start budget) (h : HasRoom start budget 1 c) (scope : Scope) :
    (g.statement scope c).Answers start fun r => c.Reaches r.2 := by
  have hlabel := reaches_skipStatementLabel c
  rw [Grammar.statement]
  apply (answers_modifiers (h.reached.trans hlabel)).bind
  rintro ⟨attributes, c₁⟩ hmodifiers
  have hreaches₁ := hlabel.trans hmodifiers
  have h₁ := h.reaches hreaches₁
  have hbehind : ∀ {x : Outcome (List Node × Cursor)}, (x.Answers start fun r => c₁.Reaches r.2) →
      x.Answers start fun r => c.Reaches r.2 :=
    fun hx => hx.mono fun _ hlater => hreaches₁.trans hlater
  dsimp only
  split
  · exact hreaches₁
  · rename_i lexeme hpeek
    split
    · exact hbehind (hg.keywordStatement h₁ scope attributes hpeek)
    · split
      · exact hbehind (answers_skippedLine h₁.reached)
      · exact hbehind (hg.expressionStatement h₁)
    all_goals exact hbehind (hg.expressionStatement h₁)

theorem Handles.statementRound (hg : g.Handles start budget) (h : HasRoom start budget 1 c) (scope : Scope)
    (inSwitch : Bool) (nodes : List Node) :
    (g.statementRound scope inSwitch nodes c).Answers start (Round.Advances c) := by
  rw [Grammar.statementRound]
  split
  · exact Cursor.Reaches.refl c
  · rename_i lexeme hpeek
    dsimp only
    split
    · exact Cursor.Reaches.refl c
    · split
      · exact Cursor.Passes.advance hpeek
      · split
        · exact Outcome.answers_unexpected (h.reached.mem_of_peek? hpeek)
        · apply (hg.statement h scope).bind
          rintro ⟨more, later⟩ hlater
          exact hlater.passes_unstalled hpeek

theorem Handles.statementsBody (hg : g.Handles start budget) (h : HasRoom start budget 1 c) (scope : Scope)
    (inSwitch : Bool) :
    (g.statementsBody scope inSwitch c).Answers start fun r => c.Reaches r.2 :=
  answers_repeatRounds (fun nodes _ hmiddle => hg.statementRound (h.reaches hmiddle) scope inSwitch nodes) []

/-! ### Nesting -/

theorem Handles.deeper (hg : g.Handles start budget) : g.deeper.Handles start (budget + 1) where
  statements h scope inSwitch := hg.statementsBody h.deeper scope inSwitch
  expression h trailing := hg.expressionBody h.deeper trailing
  ifStatement h hpeek := hg.ifBody h.deeper hpeek

/-- Without any level of nesting there is room for nothing. -/
theorem handles_exhausted (start : Cursor) : exhausted.Handles start 0 where
  statements h _ _ := absurd h.enough (Nat.not_succ_le_zero _)
  expression h _ := absurd h.enough (Nat.not_succ_le_zero _)
  ifStatement h _ := absurd h.enough (Nat.not_succ_le_zero _)

theorem handles_ofDepth (start : Cursor) (depth : Nat) : (ofDepth depth).Handles start depth := by
  induction depth with
  | zero => exact handles_exhausted start
  | succ depth ih => exact ih.deeper

/-- A whole text has a forest, or an error that is about one of its lexemes or its end. -/
theorem answers_file (lexemes : List Lexeme) (sourceStop : Nat) :
    (file lexemes sourceStop).Answers ⟨lexemes, 0, sourceStop⟩ fun _ => True := by
  have hroom : HasRoom ⟨lexemes, 0, sourceStop⟩ (depthBound lexemes.length) 2 ⟨lexemes, 0, sourceStop⟩ :=
    ⟨.refl _, Nat.le_refl _⟩
  rw [file]
  apply ((handles_ofDepth _ _).statements hroom .topLevel false).bind
  rintro ⟨nodes, later⟩ hlater
  dsimp only
  split
  · rename_i stray hpeek
    exact Outcome.answers_unexpected (hlater.mem_of_peek? hpeek)
  · trivial

end SourceLint.Grammar
