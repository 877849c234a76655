import SourceLint.Grammar.Statement
import SourceLint.Proofs.Grammar.Declarations

/-!
# Statements read arranged nodes

Statements read arranged nodes when what is nested in them does. So the grammar one level deeper than a
sound one is sound, and the grammar is sound at every depth.
-/

namespace SourceLint

namespace Grammar

variable {g : Grammar} {c : Cursor}

/-! ### Conditions -/

theorem meets_skipBinding (c : Cursor) : (skipBinding c).Meets c.Reaches := by
  rw [skipBinding]
  split
  · exact Cursor.meets_skipGroup c
  · split
    · exact Cursor.Reaches.advance c
    · exact Outcome.meets_expected _ _

theorem Sound.clause (hg : g.Sound) (hc : c.Valid) :
    (g.clause c).Meets fun r => Reads c r.1 r.2 := by
  rw [Grammar.clause]
  split
  · refine (meets_skipBinding c.advance).bind fun c₁ hbinding => ?_
    refine (Cursor.meets_skipDeclaredType c₁).bind fun c₂ htype => ?_
    have hafterType := (Cursor.Reaches.advance c).trans (hbinding.trans htype)
    dsimp only
    split
    · apply (hg.expression (hafterType.valid hc).advance false).bind
      rintro ⟨e, later⟩ he
      exact he.of_reaches hc (hafterType.trans (.advance c₂))
    · exact Reads.skip hafterType
  · dsimp only
    generalize hcase : (if c.atKeyword "case" then c.advance else c) = c₁
    have hafterCase : c.Reaches c₁ := by
      subst hcase
      split
      · exact .advance c
      · exact .refl c
    apply (hg.expression (hafterCase.valid hc) false).bind
    rintro ⟨e, later⟩ he
    dsimp only
    split
    · exact he.of_reaches hc hafterCase
    · exact Outcome.meets_expected _ _

theorem Sound.conditionRound (hg : g.Sound) (hc : c.Valid) {state : List Node × List Element}
    {middle : Cursor} (h : Reads c state.1 middle) :
    (g.conditionRound state middle).Meets
      (Round.Keeps (fun state later => Reads c state.1 later) fun r later => Reads c r.1 later) := by
  obtain ⟨nodes, elements⟩ := state
  rw [Grammar.conditionRound]
  apply (hg.clause (h.reaches.valid hc)).bind
  rintro ⟨more, later⟩ hmore
  have hboth := h.append hc hmore
  dsimp only
  split
  · exact hboth.trans_reaches hc (.advance later)
  · exact hboth

theorem Sound.conditions (hg : g.Sound) (hc : c.Valid) :
    (g.conditions c).Meets fun r => Reads c r.1.1 r.2 :=
  meets_repeatRounds (fun _ _ h => hg.conditionRound hc h) (Reads.skip (.refl c))

/-! ### Loops -/

theorem meets_skipLoopPattern (sourceStop depth patternStop lastStop : Nat) (ahead : List Lexeme) :
    (skipLoopPattern sourceStop depth patternStop lastStop ahead).Meets
      fun r => (Cursor.mk ahead lastStop sourceStop).Reaches r.2 := by
  induction ahead generalizing depth patternStop lastStop with
  | nil => exact Outcome.meets_expected _ _
  | cons lexeme ahead ih =>
      have hnext : ∀ depth,
          (skipLoopPattern sourceStop depth lexeme.stop lexeme.stop ahead).Meets
            fun r => (Cursor.mk (lexeme :: ahead) lastStop sourceStop).Reaches r.2 :=
        fun depth => (ih depth lexeme.stop lexeme.stop).mono fun _ => Cursor.Reaches.cons
      unfold skipLoopPattern
      dsimp only
      split
      · exact Cursor.Reaches.refl _
      · split
        · exact Outcome.meets_expected _ _
        · split
          · exact hnext _
          · split
            · split
              · exact Outcome.meets_unexpected _
              · exact hnext _
            · exact hnext _

theorem Sound.whereClause (hg : g.Sound) (hc : c.Valid) :
    (g.whereClause c).Meets fun r => Reads c r.1 r.2 := by
  rw [Grammar.whereClause]
  split
  · apply (hg.expression hc.advance false).bind
    rintro ⟨e, later⟩ he
    exact he.of_reaches hc (.advance c)
  · exact Reads.skip (.refl c)

/-- What is inside a loop over a sequence, and where the loop stands. -/
theorem Sound.forEachParts (hg : g.Sound) (hc : c.Valid) {keyword : Lexeme}
    (hpeek : c.peek? = some keyword) :
    (g.forEach keyword c).Meets fun r => ∃ node, r.1 = [node] ∧ node.kind = .forEach ∧
      Reads c node.children r.2 ∧ c.Passes r.2 ∧ node.span = .ofBounds c.here r.2.lastStop := by
  rw [Grammar.forEach]
  dsimp only
  generalize hwords : c.advance.advanceBy _ = c₁
  have hpasses₁ : c.Passes c₁ := (Cursor.Passes.advance hpeek).trans_reaches ⟨_, hwords.symm⟩
  apply (meets_skipLoopPattern c₁.sourceStop 0 c₁.here c₁.lastStop c₁.ahead).bind
  rintro ⟨patternStop, c₂⟩ hpattern
  have hpasses₃ : c.Passes c₂.advance :=
    hpasses₁.trans_reaches (Cursor.Reaches.trans hpattern (.advance c₂))
  apply (hg.expression (hpasses₃.1.valid hc) false).bind
  rintro ⟨sequence, c₄⟩ hsequence
  have hinside₄ := hsequence.of_reaches hc hpasses₃.1
  dsimp only
  split
  · exact Outcome.meets_expected _ _
  · apply (hg.whereClause (hinside₄.reaches.valid hc)).bind
    rintro ⟨condition, c₅⟩ hcondition
    have hinside₅ := hinside₄.append hc hcondition
    apply (hg.block (hinside₅.reaches.valid hc)).bind
    rintro ⟨body, c₆⟩ ⟨hbody, -⟩
    have hlater := hcondition.reaches.trans hbody.reaches
    refine ⟨_, rfl, rfl, hinside₅.append hc hbody, hpasses₃.trans_reaches (hsequence.reaches.trans hlater), ?_⟩
    rw [Cursor.here_of_peek? hpeek]

theorem Sound.forEach (hg : g.Sound) (hc : c.Valid) {keyword : Lexeme}
    (hpeek : c.peek? = some keyword) : (g.forEach keyword c).Meets fun r => Reads c r.1 r.2 := by
  obtain ⟨depth, rfl⟩ := hg.isOfDepth
  refine (hg.forEachParts hc hpeek).of_eq ?_
  rintro ⟨nodes, later⟩ hread ⟨node, rfl, hkind, hinside, hpasses, hspan⟩
  refine Reads.node hc hpasses hspan ⟨fun h => ?_, fun _ => ?_⟩ hinside
  · cases hkind.symm.trans h
  · exact ⟨depth, c, keyword, later, .refl c, hpeek, hread⟩

theorem Sound.whileLoop (hg : g.Sound) (hc : c.Valid) {keyword : Lexeme}
    (hpeek : c.peek? = some keyword) : (g.whileLoop keyword c).Meets fun r => Reads c r.1 r.2 := by
  rw [Grammar.whileLoop]
  apply (hg.conditions hc.advance).bind
  rintro ⟨⟨nodes, elements⟩, c₁⟩ hconditions
  have hinside := hconditions.of_reaches hc (.advance c)
  apply (hg.block (hinside.reaches.valid hc)).bind
  rintro ⟨body, c₂⟩ ⟨hbody, -⟩
  refine Reads.node hc ?_ ?_ ⟨nofun, nofun⟩ (hinside.append hc hbody)
  · exact (Cursor.Passes.advance hpeek).trans_reaches (hconditions.reaches.trans hbody.reaches)
  · rw [Cursor.here_of_peek? hpeek]

theorem Sound.repeatWhile (hg : g.Sound) (hc : c.Valid) {keyword : Lexeme}
    (hpeek : c.peek? = some keyword) : (g.repeatWhile keyword c).Meets fun r => Reads c r.1 r.2 := by
  rw [Grammar.repeatWhile]
  apply (hg.block hc.advance).bind
  rintro ⟨body, c₁⟩ ⟨hbody, -⟩
  refine (Cursor.meets_expectKeyword c₁ "while").bind fun c₂ hwhile => ?_
  have hinside := (hbody.of_reaches hc (.advance c)).trans_reaches hc hwhile
  apply (hg.conditions (hinside.reaches.valid hc)).bind
  rintro ⟨⟨nodes, elements⟩, c₃⟩ hconditions
  have hlater := hbody.reaches.trans (hwhile.trans hconditions.reaches)
  refine Reads.node hc ((Cursor.Passes.advance hpeek).trans_reaches hlater) ?_ ⟨nofun, nofun⟩
    (hinside.append hc hconditions)
  rw [Cursor.here_of_peek? hpeek]

/-! ### Branches -/

theorem Sound.elseBranch (hg : g.Sound) (hc : c.Valid) :
    (g.elseBranch c).Meets fun r => Reads c r.1 r.2 := by
  rw [Grammar.elseBranch]
  split
  · dsimp only
    split
    · apply (hg.ifStatement hc.advance).bind
      rintro ⟨branch, later⟩ hbranch
      exact hbranch.of_reaches hc (.advance c)
    · apply (hg.block hc.advance).bind
      rintro ⟨branch, later⟩ ⟨hbranch, -⟩
      exact hbranch.of_reaches hc (.advance c)
  · exact Reads.skip (.refl c)

theorem Sound.ifBody (hg : g.Sound) (hc : c.Valid) :
    (g.ifBody c).Meets fun r => Reads c [r.1] r.2 := by
  rw [Grammar.ifBody]
  apply (hg.conditions hc.advance).bind
  rintro ⟨⟨nodes, elements⟩, c₁⟩ hconditions
  have hinside₁ := hconditions.of_reaches hc (.advance c)
  apply (hg.block (hinside₁.reaches.valid hc)).bind
  rintro ⟨body, c₂⟩ ⟨hbody, hpasses⟩
  have hinside₂ := hinside₁.append hc hbody
  apply (hg.elseBranch (hinside₂.reaches.valid hc)).bind
  rintro ⟨alternative, c₃⟩ halternative
  have hpassed : c.Passes c₃ :=
    .of_reaches hinside₁.reaches (hpasses.trans_reaches halternative.reaches)
  exact Reads.node hc hpassed rfl ⟨nofun, nofun⟩ (hinside₂.append hc halternative)

theorem Sound.guardStatement (hg : g.Sound) (hc : c.Valid) {keyword : Lexeme}
    (hpeek : c.peek? = some keyword) :
    (g.guardStatement keyword c).Meets fun r => Reads c r.1 r.2 := by
  rw [Grammar.guardStatement]
  apply (hg.conditions hc.advance).bind
  rintro ⟨⟨nodes, elements⟩, c₁⟩ hconditions
  refine (Cursor.meets_expectKeyword c₁ "else").bind fun c₂ helse => ?_
  have hinside := (hconditions.of_reaches hc (.advance c)).trans_reaches hc helse
  apply (hg.block (hinside.reaches.valid hc)).bind
  rintro ⟨body, c₃⟩ ⟨hbody, -⟩
  have hlater := hconditions.reaches.trans (helse.trans hbody.reaches)
  refine Reads.node hc ((Cursor.Passes.advance hpeek).trans_reaches hlater) ?_ ⟨nofun, nofun⟩
    (hinside.append hc hbody)
  rw [Cursor.here_of_peek? hpeek]

theorem meets_skipCaseLabel (c : Cursor) : (skipCaseLabel c).Meets c.Passes := by
  rw [skipCaseLabel]
  dsimp only
  generalize hunknown : (if c.next fun l => l.text == "@unknown" then c.advance else c) = c₁
  have hafterUnknown : c.Reaches c₁ := by
    subst hunknown
    split
    · exact .advance c
    · exact .refl c
  split
  · rename_i hcase
    obtain ⟨lexeme, hpeek⟩ := Cursor.exists_peek?_of_next hcase
    apply (Cursor.meets_skipCasePattern c₁.advance).mono
    intro later hpattern
    exact .of_reaches hafterUnknown ((Cursor.Passes.advance hpeek).trans_reaches hpattern)
  · split
    · apply (Cursor.meets_expectSymbol c₁.advance _ _).bind
      rintro ⟨colon, later⟩ ⟨hcolon, -, -⟩
      exact .of_reaches (hafterUnknown.trans (.advance c₁)) hcolon
    · exact Outcome.meets_expected _ _

theorem Sound.caseRound (hg : g.Sound) (hc : c.Valid) {nodes : List Node} {middle : Cursor}
    (h : Reads c nodes middle) :
    (g.caseRound nodes middle).Meets
      (Round.Keeps (fun nodes later => Reads c nodes later) fun nodes later => Reads c nodes later) := by
  have hmiddle := h.reaches.valid hc
  rw [Grammar.caseRound]
  split
  · exact h
  · rename_i lexeme hpeek
    split
    · exact h
    · refine (meets_skipCaseLabel middle).bind fun c₁ hlabel => ?_
      apply (hg.statements (hlabel.1.valid hmiddle) _ _).bind
      rintro ⟨children, c₂⟩ hchildren
      refine h.append hc (Reads.node hmiddle (hlabel.trans_reaches hchildren.reaches) ?_ ⟨nofun, nofun⟩
        (hchildren.of_reaches hmiddle hlabel.1))
      rw [Cursor.here_of_peek? hpeek]

theorem Sound.switchStatement (hg : g.Sound) (hc : c.Valid) {keyword : Lexeme}
    (hpeek : c.peek? = some keyword) :
    (g.switchStatement keyword c).Meets fun r => Reads c r.1 r.2 := by
  rw [Grammar.switchStatement]
  apply (hg.expression hc.advance false).bind
  rintro ⟨subject, c₁⟩ hsubject
  have hinside₁ := hsubject.of_reaches hc (.advance c)
  dsimp only
  split
  · exact Outcome.meets_expected _ _
  · apply (Cursor.meets_expectSymbol c₁ _ _).bind
    rintro ⟨opener, c₂⟩ ⟨hopener, -, -⟩
    have hinside₂ := hinside₁.trans_reaches hc hopener.1
    have hc₂ := hinside₂.reaches.valid hc
    apply (meets_repeatRounds (fun _ _ h => hg.caseRound hc₂ h) (Reads.skip (.refl c₂))).bind
    rintro ⟨clauses, c₃⟩ hclauses
    apply (Cursor.meets_expectCloser c₃ _ _).bind
    rintro ⟨closer, c₄⟩ ⟨hcloser, -, hstop⟩
    have hinside := (hinside₂.append hc hclauses).trans_reaches hc hcloser.1
    have hpassed := Cursor.Passes.of_reaches hinside₁.reaches
      (hopener.trans_reaches (hclauses.reaches.trans hcloser.1))
    refine Reads.node hc hpassed ?_ ⟨nofun, nofun⟩ hinside
    rw [hstop, Cursor.here_of_peek? hpeek]

theorem Sound.catchRound (hg : g.Sound) (hc : c.Valid) {nodes : List Node} {middle : Cursor}
    (h : Reads c nodes middle) :
    (g.catchRound nodes middle).Meets
      (Round.Keeps (fun nodes later => Reads c nodes later) fun nodes later => Reads c nodes later) := by
  rw [Grammar.catchRound]
  split
  · refine (Cursor.meets_skipToBrace middle.advance).bind fun c₁ hbrace => ?_
    have hbefore := h.trans_reaches hc ((Cursor.Reaches.advance middle).trans hbrace)
    apply (hg.block (hbefore.reaches.valid hc)).bind
    rintro ⟨body, c₂⟩ ⟨hbody, -⟩
    exact hbefore.append hc hbody
  · exact h

theorem Sound.doStatement (hg : g.Sound) (hc : c.Valid) :
    (g.doStatement c).Meets fun r => Reads c r.1 r.2 := by
  rw [Grammar.doStatement]
  apply (hg.block hc.advance).bind
  rintro ⟨body, c₁⟩ ⟨hbody, -⟩
  exact meets_repeatRounds (fun _ _ h => hg.catchRound hc h) (hbody.of_reaches hc (.advance c))

/-! ### Single statements -/

theorem Sound.expressionStatement (hg : g.Sound) (hc : c.Valid) :
    (g.expressionStatement c).Meets fun r => Reads c r.1 r.2 := by
  apply (hg.expression hc true).bind
  rintro ⟨e, later⟩ he
  exact he

theorem Sound.jumpValue (hg : g.Sound) (hc : c.Valid) :
    (g.jumpValue c).Meets fun r => Reads c r.1 r.2 := by
  rw [Grammar.jumpValue]
  split
  · exact hg.expressionStatement hc
  · exact Reads.skip (.refl c)

theorem reaches_skipJumpLabel (c : Cursor) : c.Reaches (skipJumpLabel c) := by
  rw [skipJumpLabel]
  split
  · exact .advance c
  · exact .refl c

theorem reaches_skipStatementLabel (c : Cursor) : c.Reaches (skipStatementLabel c) := by
  unfold skipStatementLabel
  dsimp only
  split
  · exact .advanceBy c 2
  · exact .refl c

theorem meets_skippedLine (c : Cursor) :
    Outcome.Meets (fun r : List Node × Cursor => Reads c r.1 r.2)
      (do return ([], ← c.skipLine)) :=
  (Cursor.meets_skipLine c).bind fun _ h => Reads.skip h

theorem Sound.keywordStatement (hg : g.Sound) (hc : c.Valid) (scope : Scope)
    (attributes : List Attribute) {keyword : Lexeme} (hpeek : c.peek? = some keyword) :
    (g.keywordStatement scope attributes keyword c).Meets fun r => Reads c r.1 r.2 := by
  have hjump : (g.jumpValue c.advance).Meets fun r => Reads c r.1 r.2 :=
    (hg.jumpValue hc.advance).mono fun _ h => h.of_reaches hc (.advance c)
  have hlabel : Outcome.Meets (fun r : List Node × Cursor => Reads c r.1 r.2)
      (.ok ([], skipJumpLabel c.advance)) :=
    Reads.skip ((Cursor.Reaches.advance c).trans (reaches_skipJumpLabel c.advance))
  rw [Grammar.keywordStatement]
  split
  case h_1 | h_2 => exact hg.bindings hc scope attributes
  case h_3 | h_4 | h_5 | h_6 => exact hg.function hc scope attributes hpeek
  case h_7 | h_8 | h_9 | h_10 | h_11 | h_12 => exact hg.typeDeclaration hc attributes hpeek
  case h_13 => exact hg.forEach hc hpeek
  case h_14 => exact hg.whileLoop hc hpeek
  case h_15 => exact hg.repeatWhile hc hpeek
  case h_16 => exact (hg.ifStatement hc).bind fun _ h => h
  case h_17 => exact hg.guardStatement hc hpeek
  case h_18 => exact hg.switchStatement hc hpeek
  case h_19 => exact hg.doStatement hc
  case h_20 => exact (hg.block hc.advance).bind fun _ h => h.1.of_reaches hc (.advance c)
  case h_21 | h_22 => exact hjump
  case h_23 | h_24 | h_25 => exact hlabel
  case h_26 | h_27 | h_28 | h_29 | h_30 => exact meets_skippedLine c
  case h_31 => exact hg.expressionStatement hc

theorem Sound.statement (hg : g.Sound) (hc : c.Valid) (scope : Scope) :
    (g.statement scope c).Meets fun r => Reads c r.1 r.2 := by
  have hlabel := reaches_skipStatementLabel c
  rw [Grammar.statement]
  apply (meets_modifiers (skipStatementLabel c)).bind
  rintro ⟨attributes, c₁⟩ hmodifiers
  have hbefore := hlabel.trans hmodifiers
  have hc₁ := hbefore.valid hc
  have hbehind : ∀ {x : Outcome (List Node × Cursor)}, (x.Meets fun r => Reads c₁ r.1 r.2) →
      x.Meets fun r => Reads c r.1 r.2 :=
    fun h => h.mono fun _ hnodes => hnodes.of_reaches hc hbefore
  dsimp only
  split
  · exact Reads.skip hbefore
  · rename_i lexeme hpeek
    split
    · exact hbehind (hg.keywordStatement hc₁ scope attributes hpeek)
    · split
      · exact hbehind (meets_skippedLine c₁)
      · exact hbehind (hg.expressionStatement hc₁)
    all_goals exact hbehind (hg.expressionStatement hc₁)

theorem Sound.statementRound (hg : g.Sound) (hc : c.Valid) (scope : Scope) (inSwitch : Bool)
    {nodes : List Node} {middle : Cursor} (h : Reads c nodes middle) :
    (g.statementRound scope inSwitch nodes middle).Meets
      (Round.Keeps (fun nodes later => Reads c nodes later) fun nodes later => Reads c nodes later) := by
  rw [Grammar.statementRound]
  split
  · exact h
  · dsimp only
    split
    · exact h
    · split
      · exact h.trans_reaches hc (.advance middle)
      · split
        · exact Outcome.meets_unexpected _
        · apply (hg.statement (h.reaches.valid hc) scope).bind
          rintro ⟨more, later⟩ hmore
          have hboth := h.append hc hmore
          change Reads c (nodes ++ more) (if middle.hasStalled later then later.advance else later)
          split
          · exact hboth.trans_reaches hc (.advance later)
          · exact hboth

theorem Sound.statementsBody (hg : g.Sound) (hc : c.Valid) (scope : Scope) (inSwitch : Bool) :
    (g.statementsBody scope inSwitch c).Meets fun r => Reads c r.1 r.2 :=
  meets_repeatRounds (fun _ _ h => hg.statementRound hc scope inSwitch h) (Reads.skip (.refl c))

/-! ### Nesting -/

theorem Sound.deeper (hg : g.Sound) : g.deeper.Sound where
  isOfDepth := by
    obtain ⟨depth, rfl⟩ := hg.isOfDepth
    exact ⟨depth + 1, rfl⟩
  statements hc scope inSwitch := hg.statementsBody hc scope inSwitch
  expression hc trailing := hg.expressionBody hc trailing
  ifStatement hc := hg.ifBody hc

theorem sound_exhausted : exhausted.Sound where
  isOfDepth := ⟨0, rfl⟩
  statements _ _ _ := trivial
  expression _ _ := trivial
  ifStatement _ := trivial

theorem sound_ofDepth (depth : Nat) : (ofDepth depth).Sound := by
  induction depth with
  | zero => exact sound_exhausted
  | succ depth ih => exact ih.deeper

end Grammar

end SourceLint
