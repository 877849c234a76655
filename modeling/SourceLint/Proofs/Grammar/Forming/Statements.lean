import SourceLint.Grammar.Statement
import SourceLint.Proofs.Grammar.Forming.Declarations
import SourceLint.Proofs.Grammar.Statements

/-!
# Nodes of statements are well formed

With one more level of nesting the productions form nodes again, so they do at every depth, and the forest of a
text is formed from its lexemes.

## Main result

* `Grammar.forms_file` — the roots are what may stand at top level, and all nodes are well formed.
-/

namespace SourceLint.Grammar

variable {g : Grammar} {start c middle : Cursor} {attributes : List Attribute} {keyword : Lexeme}

/-! ### Conditions -/

theorem Forming.clause (hg : g.Forming start) (hc : start.Reaches c) :
    (g.clause c).Meets fun r => FormsExpression start c r.1 r.2 ∧ c.Passes r.2 := by
  rw [Grammar.clause]
  split
  · rename_i hbinds
    obtain ⟨x, hpeek⟩ : ∃ x, c.peek? = some x :=
      (Bool.or_eq_true_iff.1 hbinds).elim Cursor.exists_peek?_of_next Cursor.exists_peek?_of_next
    refine (meets_skipBinding c.advance).bind fun c₁ hbinding => ?_
    refine (Cursor.meets_skipDeclaredType c₁).bind fun c₂ htype => ?_
    have hpasses := (Cursor.Passes.advance hpeek).trans_reaches (hbinding.trans htype)
    dsimp only
    split
    · have hreaches := hpasses.1.trans (.advance c₂)
      apply (hg.expression (hc.trans hreaches) false).bind
      rintro ⟨e, later⟩ ⟨he, -⟩
      exact ⟨he.of_reaches hreaches, hpasses.trans_reaches ((Cursor.Reaches.advance c₂).trans he.reaches)⟩
    · exact ⟨Forms.skip hpasses.1, hpasses⟩
  · dsimp only
    generalize hcase : (if c.atKeyword "case" then c.advance else c) = c₁
    have hafterCase : c.Reaches c₁ := by
      subst hcase
      split
      · exact .advance c
      · exact .refl c
    apply (hg.expression (hc.trans hafterCase) false).bind
    rintro ⟨e, later⟩ ⟨he, hpresent⟩
    dsimp only
    split
    · rename_i hsome
      exact ⟨he.of_reaches hafterCase, .of_reaches hafterCase (hpresent hsome)⟩
    · exact Outcome.meets_expected _ _

/-- The nodes in the clauses of a condition, and the spans of the clauses. -/
def FormsConditions (start c : Cursor) (state : List Node × List Element) (later : Cursor) : Prop :=
  FormsExpression start c state.1 later ∧ ∀ e ∈ state.2, c.Holds later e.span

theorem FormsConditions.trans_reaches {state : List Node × List Element} {later : Cursor}
    (h : FormsConditions start c state middle) (hlater : middle.Reaches later) :
    FormsConditions start c state later :=
  ⟨h.1.trans_reaches hlater, fun e he => (h.2 e he).widen (.refl c) hlater⟩

theorem Forming.conditionRound (hg : g.Forming start) (hc : start.Reaches c)
    {state : List Node × List Element} (h : FormsConditions start c state middle) :
    (g.conditionRound state middle).Meets
      (Round.Keeps (FormsConditions start c) (FormsConditions start c)) := by
  obtain ⟨nodes, elements⟩ := state
  have hmiddle := hc.trans h.1.reaches
  rw [Grammar.conditionRound]
  apply (hg.clause hmiddle).bind
  rintro ⟨more, later⟩ ⟨hmore, hpasses⟩
  have hclause : middle.Holds later (.ofBounds middle.here later.lastStop) :=
    hpasses.holds (hmiddle.valid hg.valid)
  have hboth : FormsConditions start c
      (nodes ++ more, elements ++ [⟨.condition, .ofBounds middle.here later.lastStop⟩]) later := by
    refine ⟨h.1.append hmore, fun e he => ?_⟩
    rcases List.mem_append.1 he with he | he
    · exact (h.2 e he).widen (.refl c) hpasses.1
    · obtain rfl := List.mem_singleton.1 he
      exact hclause.widen h.1.reaches (.refl later)
  dsimp only
  split
  · exact hboth.trans_reaches (.advance later)
  · exact hboth

theorem Forming.conditions (hg : g.Forming start) (hc : start.Reaches c) :
    (g.conditions c).Meets fun r => FormsConditions start c r.1 r.2 :=
  meets_repeatRounds (fun _ _ h => hg.conditionRound hc h)
    (⟨Forms.skip (.refl c), List.forall_mem_nil _⟩ : FormsConditions start c ([], []) c)

/-! ### Loops -/

/-- The pattern of a loop ends where it begins, or with the last lexeme before a word that is there. -/
theorem meets_skipLoopPattern_stop (sourceStop depth patternStop lastStop : Nat) (ahead : List Lexeme) :
    (skipLoopPattern sourceStop depth patternStop lastStop ahead).Meets fun r =>
      (∃ x, r.2.peek? = some x) ∧ ((r.1 = patternStop ∧ r.2 = ⟨ahead, lastStop, sourceStop⟩) ∨
        (r.1 = r.2.lastStop ∧ (Cursor.mk ahead lastStop sourceStop).Passes r.2)) := by
  induction ahead generalizing depth patternStop lastStop with
  | nil => exact Outcome.meets_expected _ _
  | cons lexeme ahead ih =>
      have hpass : (Cursor.mk (lexeme :: ahead) lastStop sourceStop).Passes ⟨ahead, lexeme.stop, sourceStop⟩ :=
        .advance rfl
      have hnext : ∀ depth,
          (skipLoopPattern sourceStop depth lexeme.stop lexeme.stop ahead).Meets fun r =>
            (∃ x, r.2.peek? = some x) ∧
              ((r.1 = patternStop ∧ r.2 = ⟨lexeme :: ahead, lastStop, sourceStop⟩) ∨
                (r.1 = r.2.lastStop ∧ (Cursor.mk (lexeme :: ahead) lastStop sourceStop).Passes r.2)) := by
        intro depth
        apply (ih depth lexeme.stop lexeme.stop).mono
        rintro ⟨found, later⟩ ⟨hpeek, ⟨rfl, rfl⟩ | ⟨hfound, hpasses⟩⟩
        · exact ⟨hpeek, .inr ⟨rfl, hpass⟩⟩
        · exact ⟨hpeek, .inr ⟨hfound, .of_reaches hpass.1 hpasses⟩⟩
      unfold skipLoopPattern
      dsimp only
      split
      · exact ⟨⟨lexeme, rfl⟩, .inl ⟨rfl, rfl⟩⟩
      · split
        · exact Outcome.meets_expected _ _
        · split
          · exact hnext _
          · split
            · split
              · exact Outcome.meets_unexpected _
              · exact hnext _
            · exact hnext _

/-- The pattern of a loop, with the word behind it. -/
theorem holds_loopPattern (hc : c.Valid) {patternStop : Nat} {later : Cursor}
    (hpeek : ∃ x, later.peek? = some x)
    (h : (patternStop = c.here ∧ later = c) ∨ (patternStop = later.lastStop ∧ c.Passes later)) :
    c.Holds later.advance (.ofBounds c.here patternStop) := by
  obtain ⟨x, hpeek⟩ := hpeek
  rcases h with ⟨rfl, rfl⟩ | ⟨rfl, hpasses⟩
  · have hborder : later.Borders later.advance later.here :=
      ⟨x, .next hpeek (.refl _), .inl (Cursor.here_of_peek? hpeek)⟩
    refine ⟨hborder, ?_⟩
    rwa [Span.stop_ofBounds (Nat.le_refl _)]
  · exact (hpasses.holds hc).widen (.refl c) (.advance later)

theorem Forming.whereClause (hg : g.Forming start) (hc : start.Reaches c) :
    (g.whereClause c).Meets fun r => FormsExpression start c r.1 r.2 := by
  rw [Grammar.whereClause]
  split
  · apply (hg.expression (hc.trans (.advance c)) false).bind
    rintro ⟨e, later⟩ ⟨he, -⟩
    exact he.of_reaches (.advance c)
  · exact Forms.skip (.refl c)

theorem Forming.forEach (hg : g.Forming start) (hc : start.Reaches c) (scope : Scope)
    (hpeek : c.peek? = some keyword) :
    (g.forEach keyword c).Meets fun r => Forms start scope.admits c r.1 r.2 := by
  rw [Grammar.forEach]
  dsimp only
  generalize hwords : c.advance.advanceBy _ = c₁
  have hpasses₁ : c.Passes c₁ := (Cursor.Passes.advance hpeek).trans_reaches ⟨_, hwords.symm⟩
  apply (meets_skipLoopPattern_stop c₁.sourceStop 0 c₁.here c₁.lastStop c₁.ahead).bind
  rintro ⟨patternStop, c₂⟩ ⟨hword, hpattern⟩
  have hreaches₂ : c₁.Reaches c₂ := by
    rcases hpattern with ⟨-, rfl⟩ | ⟨-, hpasses⟩
    · exact .refl c₁
    · exact hpasses.1
  have hpatternHeld := holds_loopPattern ((hc.trans hpasses₁.1).valid hg.valid) hword hpattern
  have hpasses₃ := hpasses₁.trans_reaches (hreaches₂.trans (.advance c₂))
  have hreached₃ := hc.trans hpasses₃.1
  apply (hg.expression hreached₃ false).bind
  rintro ⟨sequence, c₄⟩ ⟨hsequence, hpresent⟩
  dsimp only
  split
  · exact Outcome.meets_expected _ _
  · rename_i hsome
    have hsequencePasses := hpresent (by simpa using hsome)
    have hinside₄ := hsequence.of_reaches hpasses₃.1
    apply (hg.whereClause (hc.trans hinside₄.reaches)).bind
    rintro ⟨condition, c₅⟩ hcondition
    have hinside₅ := (hinside₄.append hcondition).mono isValue_of_isExpression
    apply (hg.block (hc.trans hinside₅.reaches)).bind
    rintro ⟨body, c₆⟩ ⟨hbody, -⟩
    have hlater := hcondition.reaches.trans hbody.reaches
    have hall := hinside₅.append (hbody.mono isValue_of_brace)
    refine Forms.unmarked hg.valid hc (hpasses₃.trans_reaches (hsequence.reaches.trans hlater)) ?_
      ⟨?_, .anonymous rfl rfl, forall_of_eq_none rfl, ?_⟩ rfl hall
    · cases scope <;> rfl
    · rw [Cursor.here_of_peek? hpeek]
    · intro e he
      rcases List.mem_cons.1 he with rfl | he
      · exact hpatternHeld.widen hpasses₁.1 (hsequence.reaches.trans hlater)
      · obtain rfl := List.mem_singleton.1 he
        exact (hsequencePasses.holds (hreached₃.valid hg.valid)).widen hpasses₃.1 hlater

theorem Forming.whileLoop (hg : g.Forming start) (hc : start.Reaches c) (scope : Scope)
    (hpeek : c.peek? = some keyword) :
    (g.whileLoop keyword c).Meets fun r => Forms start scope.admits c r.1 r.2 := by
  rw [Grammar.whileLoop]
  apply (hg.conditions (hc.trans (.advance c))).bind
  rintro ⟨⟨nodes, elements⟩, c₁⟩ ⟨hnodes, helements⟩
  have hreaches₁ := (Cursor.Reaches.advance c).trans hnodes.reaches
  apply (hg.block (hc.trans hreaches₁)).bind
  rintro ⟨body, c₂⟩ ⟨hbody, -⟩
  have hpasses := (Cursor.Passes.advance hpeek).trans_reaches (hnodes.reaches.trans hbody.reaches)
  have hall := ((hnodes.of_reaches (.advance c)).mono isValue_of_isExpression).append
    (hbody.mono isValue_of_brace)
  refine Forms.unmarked hg.valid hc hpasses ?_ ⟨?_, .anonymous rfl rfl, forall_of_eq_none rfl, ?_⟩ rfl hall
  · cases scope <;> rfl
  · rw [Cursor.here_of_peek? hpeek]
  · exact fun e he => (helements e he).widen (.advance c) hbody.reaches

theorem Forming.repeatWhile (hg : g.Forming start) (hc : start.Reaches c) (scope : Scope)
    (hpeek : c.peek? = some keyword) :
    (g.repeatWhile keyword c).Meets fun r => Forms start scope.admits c r.1 r.2 := by
  rw [Grammar.repeatWhile]
  apply (hg.block (hc.trans (.advance c))).bind
  rintro ⟨body, c₁⟩ ⟨hbody, -⟩
  refine (Cursor.meets_expectKeyword c₁ "while").bind fun c₂ hwhile => ?_
  have hinside₂ := ((hbody.of_reaches (.advance c)).trans_reaches hwhile).mono isValue_of_brace
  apply (hg.conditions (hc.trans hinside₂.reaches)).bind
  rintro ⟨⟨nodes, elements⟩, c₃⟩ ⟨hnodes, helements⟩
  have hpasses := (Cursor.Passes.advance hpeek).trans_reaches
    (hbody.reaches.trans (hwhile.trans hnodes.reaches))
  have hall := hinside₂.append (hnodes.mono isValue_of_isExpression)
  refine Forms.unmarked hg.valid hc hpasses ?_ ⟨?_, .anonymous rfl rfl, forall_of_eq_none rfl, ?_⟩ rfl hall
  · cases scope <;> rfl
  · rw [Cursor.here_of_peek? hpeek]
  · exact fun e he => (helements e he).widen hinside₂.reaches (.refl c₃)

/-! ### Branches -/

theorem Forming.elseBranch (hg : g.Forming start) (hc : start.Reaches c) :
    (g.elseBranch c).Meets fun r => Forms start NodeKind.ifStatement.mayHold c r.1 r.2 := by
  rw [Grammar.elseBranch]
  split
  · dsimp only
    split
    · apply (hg.ifStatement (hc.trans (.advance c))).bind
      rintro ⟨branch, later⟩ hbranch
      exact (hbranch.of_reaches (.advance c)).mono fun _ hkind => Bool.or_eq_true_iff.2 (.inr hkind)
    · apply (hg.block (hc.trans (.advance c))).bind
      rintro ⟨branch, later⟩ ⟨hbranch, -⟩
      exact (hbranch.of_reaches (.advance c)).mono fun kind hkind =>
        Bool.or_eq_true_iff.2 (.inl (isValue_of_brace kind hkind))
  · exact Forms.skip (.refl c)

theorem Forming.ifBody (hg : g.Forming start) (hc : start.Reaches c) :
    (g.ifBody c).Meets fun r => Forms start (· == .ifStatement) c [r.1] r.2 := by
  rw [Grammar.ifBody]
  apply (hg.conditions (hc.trans (.advance c))).bind
  rintro ⟨⟨nodes, elements⟩, c₁⟩ ⟨hnodes, helements⟩
  have hinside₁ := (hnodes.of_reaches (.advance c)).mono isValue_of_isExpression
  apply (hg.block (hc.trans hinside₁.reaches)).bind
  rintro ⟨body, c₂⟩ ⟨hbody, hbodyPasses, -⟩
  have hinside₂ := hinside₁.append (hbody.mono isValue_of_brace)
  apply (hg.elseBranch (hc.trans hinside₂.reaches)).bind
  rintro ⟨alternative, c₃⟩ halternative
  have hpasses : c.Passes c₃ :=
    .of_reaches hinside₁.reaches (hbodyPasses.trans_reaches halternative.reaches)
  have hall := (hinside₂.mono fun _ hkind => Bool.or_eq_true_iff.2 (.inl hkind)).append halternative
  refine Forms.unmarked hg.valid hc hpasses rfl ⟨rfl, .anonymous rfl rfl, forall_of_eq_none rfl, ?_⟩ rfl hall
  exact fun e he => (helements e he).widen (.advance c) (hbody.reaches.trans halternative.reaches)

theorem Forming.guardStatement (hg : g.Forming start) (hc : start.Reaches c) (scope : Scope)
    (hpeek : c.peek? = some keyword) :
    (g.guardStatement keyword c).Meets fun r => Forms start scope.admits c r.1 r.2 := by
  rw [Grammar.guardStatement]
  apply (hg.conditions (hc.trans (.advance c))).bind
  rintro ⟨⟨nodes, elements⟩, c₁⟩ ⟨hnodes, helements⟩
  refine (Cursor.meets_expectKeyword c₁ "else").bind fun c₂ helse => ?_
  have hinside₂ := ((hnodes.of_reaches (.advance c)).trans_reaches helse).mono isValue_of_isExpression
  apply (hg.block (hc.trans hinside₂.reaches)).bind
  rintro ⟨body, c₃⟩ ⟨hbody, -⟩
  have hlater := helse.trans hbody.reaches
  have hpasses := (Cursor.Passes.advance hpeek).trans_reaches (hnodes.reaches.trans hlater)
  have hall := hinside₂.append (hbody.mono isValue_of_brace)
  refine Forms.unmarked hg.valid hc hpasses ?_ ⟨?_, .anonymous rfl rfl, forall_of_eq_none rfl, ?_⟩ rfl hall
  · cases scope <;> rfl
  · rw [Cursor.here_of_peek? hpeek]
  · exact fun e he => (helements e he).widen (.advance c) hlater

/-- The clauses of a `switch` statement. -/
abbrev FormsClauses (start c : Cursor) (nodes : List Node) (later : Cursor) : Prop :=
  Forms start (· == .caseClause) c nodes later

theorem Forming.caseRound (hg : g.Forming start) (hc : start.Reaches c) {nodes : List Node}
    (h : FormsClauses start c nodes middle) :
    (g.caseRound nodes middle).Meets (Round.Keeps (FormsClauses start c) (FormsClauses start c)) := by
  have hmiddle := hc.trans h.reaches
  rw [Grammar.caseRound]
  split
  · exact h
  · rename_i lexeme hpeek
    split
    · exact h
    · refine (meets_skipCaseLabel middle).bind fun c₁ hlabel => ?_
      apply (hg.statements (hmiddle.trans hlabel.1) _ _).bind
      rintro ⟨children, c₂⟩ hchildren
      refine h.append (Forms.unmarked hg.valid hmiddle (hlabel.trans_reaches hchildren.reaches) rfl
        ⟨?_, .anonymous rfl rfl, forall_of_eq_none rfl, List.forall_mem_nil _⟩ rfl (hchildren.of_reaches hlabel.1))
      rw [Cursor.here_of_peek? hpeek]

theorem Forming.switchStatement (hg : g.Forming start) (hc : start.Reaches c) (scope : Scope)
    (hpeek : c.peek? = some keyword) :
    (g.switchStatement keyword c).Meets fun r => Forms start scope.admits c r.1 r.2 := by
  rw [Grammar.switchStatement]
  apply (hg.expression (hc.trans (.advance c)) false).bind
  rintro ⟨subject, c₁⟩ ⟨hsubject, -⟩
  have hinside₁ := hsubject.of_reaches (.advance c)
  dsimp only
  split
  · exact Outcome.meets_expected _ _
  · apply (Cursor.meets_expectSymbol_next c₁ _ _).bind
    rintro ⟨opener, c₂⟩ ⟨hpeekOpener, hopener, rfl⟩
    have hinside₂ := hinside₁.trans_reaches (.advance c₁)
    have hreached₂ := hc.trans hinside₂.reaches
    apply (meets_repeatRounds (fun _ _ h => hg.caseRound hreached₂ h) (Forms.skip (.refl c₁.advance))).bind
    rintro ⟨clauses, c₃⟩ hclauses
    apply (Cursor.meets_expectCloser_next c₃ _ _).bind
    rintro ⟨closer, c₄⟩ ⟨hpeekCloser, hcloser, rfl⟩
    have hends := endsWith_advance hclauses.reaches hpeekCloser hcloser
    have hgroup := Cursor.encloses_group ((hc.trans hinside₁.reaches).valid hg.valid) hpeekOpener hends.taken
      (Lexeme.closes_curly hopener hcloser)
    have hpasses : c.Passes c₃.advance := (Cursor.Passes.advance hpeek).trans_reaches (hsubject.reaches.trans
      ((Cursor.Reaches.advance c₁).trans (hclauses.reaches.trans (.advance c₃))))
    have hall : Forms start NodeKind.switchStatement.mayHold c (subject.nodes ++ clauses) c₃.advance :=
      ((hinside₂.mono fun _ hkind => Bool.or_eq_true_iff.2 (.inl hkind)).append
        (hclauses.mono fun _ hkind => Bool.or_eq_true_iff.2 (.inr hkind))).trans_reaches (.advance c₃)
    refine Forms.unmarked hg.valid hc hpasses ?_ ⟨?_, .anonymous rfl rfl, ?_, List.forall_mem_nil _⟩ rfl hall
    · cases scope <;> rfl
    · rw [hends.last, Cursor.here_of_peek? hpeek]
    · intro span hspan
      obtain rfl := Option.some.inj hspan
      exact hgroup.widen hinside₁.reaches (.refl _)

/-- The blocks of a statement. -/
abbrev FormsBlocks (start c : Cursor) (nodes : List Node) (later : Cursor) : Prop :=
  Forms start (· == .brace) c nodes later

theorem Forming.catchRound (hg : g.Forming start) (hc : start.Reaches c) {nodes : List Node}
    (h : FormsBlocks start c nodes middle) :
    (g.catchRound nodes middle).Meets (Round.Keeps (FormsBlocks start c) (FormsBlocks start c)) := by
  rw [Grammar.catchRound]
  split
  · refine (Cursor.meets_skipToBrace middle.advance).bind fun c₁ hbrace => ?_
    have hbefore := h.trans_reaches ((Cursor.Reaches.advance middle).trans hbrace)
    apply (hg.block (hc.trans hbefore.reaches)).bind
    rintro ⟨body, c₂⟩ ⟨hbody, -⟩
    exact hbefore.append hbody
  · exact h

theorem Forming.doStatement (hg : g.Forming start) (hc : start.Reaches c) :
    (g.doStatement c).Meets fun r => FormsBlocks start c r.1 r.2 := by
  rw [Grammar.doStatement]
  apply (hg.block (hc.trans (.advance c))).bind
  rintro ⟨body, c₁⟩ ⟨hbody, -⟩
  exact meets_repeatRounds (fun _ _ h => hg.catchRound hc h) (hbody.of_reaches (.advance c))

/-! ### Single statements -/

theorem admits_of_isExpression (scope : Scope) (kind : NodeKind) (h : kind.isExpression = true) :
    scope.admits kind = true := by
  rw [Scope.admits, h]
  rfl

theorem admits_of_brace (scope : Scope) (kind : NodeKind) (h : (kind == .brace) = true) :
    scope.admits kind = true := by
  rw [eq_of_beq h]
  cases scope <;> rfl

theorem admits_of_ifStatement (scope : Scope) (kind : NodeKind) (h : (kind == .ifStatement) = true) :
    scope.admits kind = true := by
  rw [eq_of_beq h]
  cases scope <;> rfl

/-- The nodes of a statement. -/
abbrev FormsStatements (start : Cursor) (scope : Scope) (c : Cursor) (nodes : List Node) (later : Cursor) : Prop :=
  Forms start scope.admits c nodes later

theorem Forming.expressionStatement (hg : g.Forming start) (hc : start.Reaches c) (scope : Scope) :
    (g.expressionStatement c).Meets fun r => FormsStatements start scope c r.1 r.2 := by
  apply (hg.expression hc true).bind
  rintro ⟨e, later⟩ ⟨he, -⟩
  exact he.mono (admits_of_isExpression scope)

theorem Forming.jumpValue (hg : g.Forming start) (hc : start.Reaches c) (scope : Scope) :
    (g.jumpValue c).Meets fun r => FormsStatements start scope c r.1 r.2 := by
  rw [Grammar.jumpValue]
  split
  · exact hg.expressionStatement hc scope
  · exact Forms.skip (.refl c)

theorem meets_skippedLine_forms (start : Cursor) (scope : Scope) (c : Cursor) :
    Outcome.Meets (fun r : List Node × Cursor => FormsStatements start scope c r.1 r.2)
      (do return ([], ← c.skipLine)) :=
  (Cursor.meets_skipLine c).bind fun _ h => Forms.skip h

theorem Forming.keywordStatement (hg : g.Forming start) (hc : start.Reaches c) (scope : Scope)
    (hattributes : FramesAttributes start attributes) (hpeek : c.peek? = some keyword) :
    (g.keywordStatement scope attributes keyword c).Meets fun r => FormsStatements start scope c r.1 r.2 := by
  have hinside := hc.trans (.advance c)
  have hjump : (g.jumpValue c.advance).Meets fun r => FormsStatements start scope c r.1 r.2 :=
    (hg.jumpValue hinside scope).mono fun _ h => h.of_reaches (.advance c)
  have hlabel : Outcome.Meets (fun r : List Node × Cursor => FormsStatements start scope c r.1 r.2)
      (.ok ([], skipJumpLabel c.advance)) :=
    Forms.skip ((Cursor.Reaches.advance c).trans (reaches_skipJumpLabel c.advance))
  rw [Grammar.keywordStatement]
  split
  case h_1 | h_2 => exact hg.bindings hc scope hattributes
  case h_3 | h_4 | h_5 | h_6 => exact hg.function hc scope hattributes hpeek
  case h_7 | h_8 | h_9 | h_10 | h_11 | h_12 => exact hg.typeDeclaration hc scope hattributes hpeek
  case h_13 => exact hg.forEach hc scope hpeek
  case h_14 => exact hg.whileLoop hc scope hpeek
  case h_15 => exact hg.repeatWhile hc scope hpeek
  case h_16 => exact (hg.ifStatement hc).bind fun _ h => h.mono (admits_of_ifStatement scope)
  case h_17 => exact hg.guardStatement hc scope hpeek
  case h_18 => exact hg.switchStatement hc scope hpeek
  case h_19 => exact (hg.doStatement hc).mono fun _ h => h.mono (admits_of_brace scope)
  case h_20 =>
    exact (hg.block hinside).bind fun _ h => (h.1.of_reaches (.advance c)).mono (admits_of_brace scope)
  case h_21 | h_22 => exact hjump
  case h_23 | h_24 | h_25 => exact hlabel
  case h_26 | h_27 | h_28 | h_29 | h_30 => exact meets_skippedLine_forms start scope c
  case h_31 => exact hg.expressionStatement hc scope

theorem Forming.statement (hg : g.Forming start) (hc : start.Reaches c) (scope : Scope) :
    (g.statement scope c).Meets fun r => FormsStatements start scope c r.1 r.2 := by
  have hlabel := reaches_skipStatementLabel c
  have hmodifiers := (meets_modifiers (skipStatementLabel c)).of_eq fun r hr hreaches =>
    And.intro hreaches ((meets_modifiers_frames hg.valid (hc.trans hlabel)).of_ok hr)
  rw [Grammar.statement]
  apply hmodifiers.bind
  rintro ⟨attributes, c₁⟩ ⟨hreaches, hattributes⟩
  have hbefore := hlabel.trans hreaches
  have hc₁ := hc.trans hbefore
  have hbehind : ∀ {x : Outcome (List Node × Cursor)},
      (x.Meets fun r => FormsStatements start scope c₁ r.1 r.2) →
        x.Meets fun r => FormsStatements start scope c r.1 r.2 :=
    fun h => h.mono fun _ hnodes => hnodes.of_reaches hbefore
  dsimp only
  split
  · exact Forms.skip hbefore
  · rename_i lexeme hpeek
    split
    · exact hbehind (hg.keywordStatement hc₁ scope hattributes hpeek)
    · split
      · exact hbehind (meets_skippedLine_forms start scope c₁)
      · exact hbehind (hg.expressionStatement hc₁ scope)
    all_goals exact hbehind (hg.expressionStatement hc₁ scope)

theorem Forming.statementRound (hg : g.Forming start) (hc : start.Reaches c) (scope : Scope)
    (inSwitch : Bool) {nodes : List Node} (h : FormsStatements start scope c nodes middle) :
    (g.statementRound scope inSwitch nodes middle).Meets
      (Round.Keeps (FormsStatements start scope c) (FormsStatements start scope c)) := by
  rw [Grammar.statementRound]
  split
  · exact h
  · dsimp only
    split
    · exact h
    · split
      · exact h.trans_reaches (.advance middle)
      · split
        · exact Outcome.meets_unexpected _
        · apply (hg.statement (hc.trans h.reaches) scope).bind
          rintro ⟨more, later⟩ hmore
          have hboth := h.append hmore
          change FormsStatements start scope c (nodes ++ more)
            (if middle.hasStalled later then later.advance else later)
          split
          · exact hboth.trans_reaches (.advance later)
          · exact hboth

theorem Forming.statementsBody (hg : g.Forming start) (hc : start.Reaches c) (scope : Scope)
    (inSwitch : Bool) :
    (g.statementsBody scope inSwitch c).Meets fun r => FormsStatements start scope c r.1 r.2 :=
  meets_repeatRounds (fun _ _ h => hg.statementRound hc scope inSwitch h) (Forms.skip (.refl c))

/-! ### Nesting -/

theorem Forming.deeper (hg : g.Forming start) : g.deeper.Forming start where
  valid := hg.valid
  statements hc scope inSwitch := hg.statementsBody hc scope inSwitch
  expression hc trailing := hg.expressionBody hc trailing
  ifStatement hc := hg.ifBody hc

theorem forming_exhausted (hstart : start.Valid) : exhausted.Forming start where
  valid := hstart
  statements _ _ _ := trivial
  expression _ _ := trivial
  ifStatement _ := trivial

theorem forming_ofDepth (hstart : start.Valid) (depth : Nat) : (ofDepth depth).Forming start := by
  induction depth with
  | zero => exact forming_exhausted hstart
  | succ depth ih => exact ih.deeper

/-- The roots of the forest of a text may stand at top level, and all its nodes are well formed. -/
theorem forms_file {lexemes : List Lexeme} {sourceStop : Nat} (h : Lexeme.InOrder 0 sourceStop lexemes) :
    (file lexemes sourceStop).Meets fun forest => ∃ later : Cursor,
      Forms ⟨lexemes, 0, sourceStop⟩ Scope.topLevel.admits ⟨lexemes, 0, sourceStop⟩ forest later := by
  have hvalid : (Cursor.mk lexemes 0 sourceStop).Valid := h
  rw [file]
  apply ((forming_ofDepth hvalid _).statements (.refl _) .topLevel false).bind
  rintro ⟨nodes, later⟩ hnodes
  dsimp only
  split
  · exact Outcome.meets_unexpected _
  · exact ⟨later, hnodes⟩

end SourceLint.Grammar
