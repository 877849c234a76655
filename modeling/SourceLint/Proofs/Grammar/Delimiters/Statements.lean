import SourceLint.Grammar.Source
import SourceLint.Proofs.Basic
import SourceLint.Proofs.Grammar.Delimiters.Balance
import SourceLint.Proofs.Grammar.Delimiters.Declarations

/-!
# A text with a structure nests

Statements take what nests when what is nested in them does, so the grammar takes what nests at every depth.
A clause of a condition is read together with the lexeme before it, which shows that a name is bound there.
-/

namespace SourceLint

namespace Grammar

open Lexeme Cursor

variable {g : Grammar} {c : Cursor}

/-! ### Conditions -/

/-- What a condition binds, together with the lexeme before the condition and its keyword. -/
theorem meets_skipBinding_nests {leader keyword : Lexeme} (hleader : leadsCondition leader = true)
    (hkeyword : (keyword.isKeyword "let" || keyword.isKeyword "var") = true) (c : Cursor) :
    (skipBinding c).Meets fun later =>
      Grammar.Nests .code (leader :: keyword :: c.ahead) later.ahead := by
  have hplain : keyword.isDelimiter = false :=
    isDelimiter_of_or isDelimiter_of_isKeyword isDelimiter_of_isKeyword hkeyword
  rw [skipBinding]
  split
  · apply (meets_skipGroup_nests c).mono
    intro later hgroup
    exact (Nests.plain (isDelimiter_of_leadsCondition hleader)).trans ((Nests.plain hplain).trans hgroup)
  · rename_i hround
    split
    · rename_i hsome
      obtain ⟨name, hname⟩ := Option.isSome_iff_exists.1 hsome
      rw [atSymbol, next, hname, Option.any_some, Bool.not_eq_true] at hround
      change Grammar.Nests .code (leader :: keyword :: c.ahead) c.advance.ahead
      rw [ahead_of_peek? hname]
      exact .of_takes (.binding hleader hkeyword hround)
    · exact Outcome.meets_expected _ _

theorem Delimits.clause (hg : g.Delimits) {leader : Lexeme} (hleader : leadsCondition leader = true)
    (c : Cursor) :
    (g.clause c).Meets fun r => Grammar.Nests .code (leader :: c.ahead) r.2.ahead := by
  have hplain : Grammar.Nests .code (leader :: c.ahead) c.ahead :=
    .plain (isDelimiter_of_leadsCondition hleader)
  rw [Grammar.clause]
  split
  · rename_i hbinding
    obtain ⟨keyword, hpeek, hkeyword⟩ : ∃ keyword, c.peek? = some keyword ∧
        (keyword.isKeyword "let" || keyword.isKeyword "var") = true := by
      simp only [atKeyword, next, Bool.or_eq_true, Option.any_eq_true] at hbinding ⊢
      obtain ⟨keyword, hpeek, hword⟩ | ⟨keyword, hpeek, hword⟩ := hbinding
      · exact ⟨keyword, hpeek, .inl hword⟩
      · exact ⟨keyword, hpeek, .inr hword⟩
    rw [ahead_of_peek? hpeek]
    refine (meets_skipBinding_nests hleader hkeyword c.advance).bind fun c₁ hname => ?_
    refine (meets_skipDeclaredType_nests c₁).bind fun c₂ htype => ?_
    have hbound := hname.trans htype
    dsimp only
    split
    · rename_i hequals
      exact (hg.expression false c₂.advance).bind fun _ he =>
        hbound.trans ((nests_atSymbol hequals (by decide)).trans he.nests)
    · exact hbound
  · dsimp only
    have hcase : c.Nests (if c.atKeyword "case" then c.advance else c) := by
      split
      · rename_i hword
        exact nests_atKeyword hword
      · exact .refl c
    apply (hg.expression false _).bind
    rintro ⟨e, later⟩ he
    dsimp only
    split
    · exact hplain.trans (hcase.trans he.nests)
    · exact Outcome.meets_expected _ _

/-- A condition together with the lexeme before it. -/
theorem Delimits.conditions (hg : g.Delimits) {leader : Lexeme} (hleader : leadsCondition leader = true)
    (c : Cursor) :
    (g.conditions c).Meets fun r => Grammar.Nests .code (leader :: c.ahead) r.2.ahead := by
  refine meets_repeatRounds
    (I := fun _ middle => ∃ before, leadsCondition before = true ∧
      Grammar.Nests .code (leader :: c.ahead) (before :: middle.ahead))
    (Q := fun _ later => Grammar.Nests .code (leader :: c.ahead) later.ahead)
    ?_ ⟨leader, hleader, .refl _ _⟩
  rintro state middle ⟨before, hbefore, hmiddle⟩
  rw [Grammar.conditionRound]
  apply (hg.clause hbefore middle).bind
  rintro ⟨more, later⟩ hclause
  have hlater := hmiddle.trans hclause
  dsimp only
  split
  · rename_i hcomma
    obtain ⟨comma, hpeek, hsymbol⟩ := (Option.any_eq_true _ _).1 hcomma
    refine ⟨comma, ?_, ahead_of_peek? hpeek ▸ hlater⟩
    rw [leadsCondition, hsymbol, Bool.true_or]
  · exact hlater

/-- A condition behind the keyword at the cursor. -/
theorem Delimits.conditions_behind (hg : g.Delimits) {keyword : Lexeme} (hpeek : c.peek? = some keyword)
    {word : String} (hmem : word ∈ ["if", "while", "guard"]) (hword : keyword.isKeyword word = true) :
    (g.conditions c.advance).Meets fun r => c.Nests r.2 := by
  have hleader : leadsCondition keyword = true := by
    rw [leadsCondition, Bool.or_eq_true, List.any_eq_true]
    exact .inr ⟨word, hmem, hword⟩
  apply (hg.conditions hleader c.advance).mono
  intro r hconditions
  rwa [← ahead_of_peek? hpeek] at hconditions

/-! ### Loops -/

theorem meets_skipLoopPattern_isLoopPattern (sourceStop depth patternStop lastStop : Nat)
    (ahead : List Lexeme) :
    (skipLoopPattern sourceStop depth patternStop lastStop ahead).Meets fun r =>
      ∃ inside word, ahead = inside ++ r.2.ahead ∧ isLoopPattern depth inside = true ∧
        r.2.peek? = some word ∧ word.isKeyword "in" = true := by
  induction ahead generalizing depth patternStop lastStop with
  | nil => exact Outcome.meets_expected _ _
  | cons lexeme ahead ih =>
      have hnext : ∀ depth', (∀ inside, isLoopPattern depth' inside = true →
            isLoopPattern depth (lexeme :: inside) = true) →
          (skipLoopPattern sourceStop depth' lexeme.stop lexeme.stop ahead).Meets fun r =>
            ∃ inside word, lexeme :: ahead = inside ++ r.2.ahead ∧ isLoopPattern depth inside = true ∧
              r.2.peek? = some word ∧ word.isKeyword "in" = true := by
        intro depth' hinside
        apply (ih depth' lexeme.stop lexeme.stop).mono
        rintro ⟨patternStop, later⟩ ⟨inside, word, hahead, hpattern, hword⟩
        exact ⟨lexeme :: inside, word, by rw [hahead]; rfl, hinside inside hpattern, hword⟩
      unfold skipLoopPattern
      dsimp only
      split
      · rename_i hin
        rw [Bool.and_eq_true, beq_iff_eq] at hin
        obtain ⟨rfl, hword⟩ := hin
        exact ⟨[], lexeme, rfl, rfl, rfl, hword⟩
      · split
        · exact Outcome.meets_expected _ _
        · rename_i hbrace
          split
          · rename_i hopener
            refine hnext _ fun inside hinside => ?_
            rw [isLoopPattern.eq_def]
            simp only [hbrace, hopener, Bool.false_eq_true, if_false, if_true]
            exact hinside
          · rename_i hopener
            split
            · rename_i hcloser
              split
              · exact Outcome.meets_unexpected _
              · refine hnext _ fun inside hinside => ?_
                rw [isLoopPattern.eq_def]
                simp only [hbrace, hopener, hcloser, Bool.false_eq_true, if_false, if_true]
                exact hinside
            · rename_i hcloser
              refine hnext _ fun inside hinside => ?_
              rw [isLoopPattern.eq_def]
              simp only [hbrace, hopener, hcloser, Bool.false_eq_true, if_false]
              exact hinside

/-- Lexemes that are no delimiters may stand in any pattern. -/
theorem isLoopPattern_append {front : List Lexeme} (h : ∀ lexeme ∈ front, lexeme.isDelimiter = false)
    (depth : Nat) (inside : List Lexeme) :
    isLoopPattern depth (front ++ inside) = isLoopPattern depth inside := by
  induction front with
  | nil => rfl
  | cons lexeme front ih =>
      rw [List.forall_mem_cons] at h
      obtain ⟨hplain, hfront⟩ := h
      simp only [isDelimiter_eq, isOpener, isCloser, Bool.or_eq_false_iff] at hplain
      rw [List.cons_append, isLoopPattern.eq_def]
      simp only [hplain, Bool.and_false, Bool.or_false, Bool.false_eq_true, if_false]
      exact ih hfront

theorem Delimits.whereClause (hg : g.Delimits) (c : Cursor) :
    (g.whereClause c).Meets fun r => c.Nests r.2 := by
  rw [Grammar.whereClause]
  split
  · rename_i hwhere
    exact (hg.expression false c.advance).bind fun _ he => (nests_atKeyword hwhere).trans he.nests
  · exact Cursor.Nests.refl c

theorem Delimits.forEach (hg : g.Delimits) {keyword : Lexeme} (hpeek : c.peek? = some keyword)
    (hkeyword : keyword.isKeyword "for" = true) :
    (g.forEach keyword c).Meets fun r => c.Nests r.2 := by
  rw [Grammar.forEach]
  dsimp only
  generalize hlength : (c.advance.ahead.takeWhile _).length = n
  have hwords : ∀ lexeme ∈ c.advance.ahead.take n, lexeme.isDelimiter = false := by
    rw [← hlength]
    refine isDelimiter_of_mem_takeWhile ?_ _
    intro lexeme
    exact isDelimiter_of_or (isDelimiter_of_or isDelimiter_of_isKeyword isDelimiter_of_isKeyword)
      isDelimiter_of_isKeyword
  apply (meets_skipLoopPattern_isLoopPattern _ 0 _ _ _).bind
  rintro ⟨patternStop, c₂⟩ ⟨inside, word, hahead, hpattern, hpeek₂, hword⟩
  have hhead : c.Nests c₂.advance := by
    have hsplit : c.ahead = keyword :: (c.advance.ahead.take n ++ inside ++ word :: c₂.advance.ahead) := by
      rw [List.append_assoc, ← ahead_of_peek? hpeek₂, ← hahead, ahead_advanceBy,
        List.take_append_drop, ← ahead_of_peek? hpeek]
    rw [Cursor.Nests, hsplit]
    exact .of_takes (.pattern hkeyword ((isLoopPattern_append hwords 0 inside).trans hpattern) hword)
  apply (hg.expression false c₂.advance).bind
  rintro ⟨sequence, c₄⟩ hsequence
  dsimp only
  split
  · exact Outcome.meets_expected _ _
  · apply (hg.whereClause c₄).bind
    rintro ⟨condition, c₅⟩ hcondition
    exact (hg.block c₅).bind fun _ hbody =>
      hhead.trans (hsequence.nests.trans (hcondition.trans hbody))

theorem Delimits.whileLoop (hg : g.Delimits) {keyword : Lexeme} (hpeek : c.peek? = some keyword)
    (hkeyword : keyword.isKeyword "while" = true) :
    (g.whileLoop keyword c).Meets fun r => c.Nests r.2 := by
  rw [Grammar.whileLoop]
  apply (hg.conditions_behind hpeek (by decide) hkeyword).bind
  rintro ⟨⟨nodes, elements⟩, c₁⟩ hconditions
  exact (hg.block c₁).bind fun _ hbody => hconditions.trans hbody

theorem Delimits.repeatWhile (hg : g.Delimits) (keyword : Lexeme) (hkeyword : c.Nests c.advance) :
    (g.repeatWhile keyword c).Meets fun r => c.Nests r.2 := by
  rw [Grammar.repeatWhile]
  apply (hg.block c.advance).bind
  rintro ⟨body, c₁⟩ hbody
  refine (meets_expectKeyword_ahead c₁ "while").bind ?_
  rintro c₂ ⟨leader, hleader, hahead⟩
  have hleads : leadsCondition leader = true := by
    rw [leadsCondition, Bool.or_eq_true, List.any_eq_true]
    exact .inr ⟨"while", by decide, hleader⟩
  apply (hg.conditions hleads c₂).bind
  rintro ⟨⟨nodes, elements⟩, c₃⟩ hconditions
  rw [← hahead] at hconditions
  exact hkeyword.trans (hbody.trans hconditions)

/-! ### Branches -/

theorem Delimits.elseBranch (hg : g.Delimits) (c : Cursor) :
    (g.elseBranch c).Meets fun r => c.Nests r.2 := by
  rw [Grammar.elseBranch]
  split
  · rename_i helse
    dsimp only
    split
    · rename_i hif
      obtain ⟨keyword, hpeek, hkeyword⟩ := (Option.any_eq_true _ _).1 hif
      exact (hg.ifStatement hpeek hkeyword).bind fun _ h => (nests_atKeyword helse).trans h
    · exact (hg.block c.advance).bind fun _ h => (nests_atKeyword helse).trans h
  · exact Cursor.Nests.refl c

theorem Delimits.ifBody (hg : g.Delimits) {keyword : Lexeme} (hpeek : c.peek? = some keyword)
    (hkeyword : keyword.isKeyword "if" = true) : (g.ifBody c).Meets fun r => c.Nests r.2 := by
  rw [Grammar.ifBody]
  apply (hg.conditions_behind hpeek (by decide) hkeyword).bind
  rintro ⟨⟨nodes, elements⟩, c₁⟩ hconditions
  apply (hg.block c₁).bind
  rintro ⟨body, c₂⟩ hbody
  exact (hg.elseBranch c₂).bind fun _ helse => hconditions.trans (hbody.trans helse)

theorem Delimits.guardStatement (hg : g.Delimits) {keyword : Lexeme} (hpeek : c.peek? = some keyword)
    (hkeyword : keyword.isKeyword "guard" = true) :
    (g.guardStatement keyword c).Meets fun r => c.Nests r.2 := by
  rw [Grammar.guardStatement]
  apply (hg.conditions_behind hpeek (by decide) hkeyword).bind
  rintro ⟨⟨nodes, elements⟩, c₁⟩ hconditions
  refine (meets_expectKeyword_ahead c₁ "else").bind ?_
  rintro c₂ ⟨word, hword, hahead⟩
  have helse : c₁.Nests c₂ := by
    rw [Cursor.Nests, hahead]
    exact .plain (isDelimiter_of_isKeyword hword)
  exact (hg.block c₂).bind fun _ hbody => hconditions.trans (helse.trans hbody)

theorem meets_skipCaseLabel_nests (c : Cursor) : (skipCaseLabel c).Meets c.Nests := by
  rw [skipCaseLabel]
  dsimp only
  have hunknown : c.Nests (if c.next fun l => l.text == "@unknown" then c.advance else c) := by
    split
    · rename_i htext
      exact .advance_of_next htext fun _ h => isDelimiter_of_text (eq_of_beq h ▸ by decide)
    · exact .refl c
  generalize (if c.next fun l => l.text == "@unknown" then c.advance else c) = c₁ at hunknown
  split
  · rename_i hcase
    exact (meets_skipCasePattern_nests c₁.advance).mono fun _ hpattern =>
      hunknown.trans ((nests_atKeyword hcase).trans hpattern)
  · split
    · rename_i hdefault
      apply (meets_expectSymbol_ahead c₁.advance _ _).bind
      rintro ⟨colon, later⟩ ⟨hcolon, hahead⟩
      refine hunknown.trans ((nests_atKeyword hdefault).trans ?_)
      rw [Cursor.Nests, hahead]
      exact .plain (isDelimiter_of_isSymbol hcolon (by decide))
    · exact Outcome.meets_expected _ _

theorem Delimits.caseRound (hg : g.Delimits) (nodes : List Node) (c : Cursor) :
    (g.caseRound nodes c).Meets fun r => c.Nests r.2 := by
  rw [Grammar.caseRound]
  split
  · exact Cursor.Nests.refl c
  · split
    · exact Cursor.Nests.refl c
    · refine (meets_skipCaseLabel_nests c).bind fun c₁ hlabel => ?_
      exact (hg.statements _ _ c₁).bind fun _ hstatements => hlabel.trans hstatements

theorem Delimits.switchStatement (hg : g.Delimits) (keyword : Lexeme) (hkeyword : c.Nests c.advance) :
    (g.switchStatement keyword c).Meets fun r => c.Nests r.2 := by
  rw [Grammar.switchStatement]
  apply (hg.expression false c.advance).bind
  rintro ⟨subject, c₁⟩ hsubject
  dsimp only
  split
  · exact Outcome.meets_expected _ _
  · apply (meets_expectSymbol_ahead c₁ _ _).bind
    rintro ⟨opener, c₂⟩ ⟨hopener, hahead₁⟩
    apply (meets_repeatRounds_nests hg.caseRound [] c₂).bind
    rintro ⟨clauses, c₃⟩ hclauses
    apply (meets_expectCloser_ahead c₃ _ _).bind
    rintro ⟨closer, c₄⟩ ⟨hcloser, hahead₃⟩
    have hbody : c₁.Enters c₄ :=
      .group hahead₁ (closes_curly hopener hcloser) (.inl rfl) (hahead₃ ▸ hclauses)
    exact hkeyword.trans (hsubject.nests.trans hbody.nests)

theorem Delimits.catchRound (hg : g.Delimits) (nodes : List Node) (c : Cursor) :
    (g.catchRound nodes c).Meets fun r => c.Nests r.2 := by
  rw [Grammar.catchRound]
  split
  · rename_i hcatch
    refine (meets_skipToBrace_nests c.advance).bind fun c₁ hbrace => ?_
    exact (hg.block c₁).bind fun _ hbody => (nests_atKeyword hcatch).trans (hbrace.trans hbody)
  · exact Cursor.Nests.refl c

theorem Delimits.doStatement (hg : g.Delimits) (hkeyword : c.Nests c.advance) :
    (g.doStatement c).Meets fun r => c.Nests r.2 := by
  rw [Grammar.doStatement]
  apply (hg.block c.advance).bind
  rintro ⟨body, c₁⟩ hbody
  exact (meets_repeatRounds_nests hg.catchRound [body] c₁).mono fun _ hcatches =>
    hkeyword.trans (hbody.trans hcatches)

/-! ### Single statements -/

theorem Delimits.expressionStatement (hg : g.Delimits) (c : Cursor) :
    (g.expressionStatement c).Meets fun r => c.Enters r.2 :=
  (hg.expression true c).bind fun _ h => h

theorem Delimits.jumpValue (hg : g.Delimits) (c : Cursor) :
    (g.jumpValue c).Meets fun r => c.Nests r.2 := by
  rw [Grammar.jumpValue]
  split
  · exact (hg.expression true c).bind fun _ h => h.nests
  · exact Cursor.Nests.refl c

theorem nests_skipJumpLabel (c : Cursor) : c.Nests (skipJumpLabel c) := by
  rw [skipJumpLabel]
  split
  · rename_i hlabel
    refine .advance_of_next hlabel fun lexeme h => ?_
    rw [Bool.and_eq_true] at h
    exact isDelimiter_of_isIdentifier h.1
  · exact .refl c

theorem nests_skipStatementLabel (c : Cursor) : c.Nests (skipStatementLabel c) := by
  unfold skipStatementLabel
  dsimp only
  split
  · rename_i hlabel
    rw [Bool.and_eq_true, Bool.and_eq_true] at hlabel
    obtain ⟨lexeme, hpeek, hidentifier⟩ := (Option.any_eq_true _ _).1 hlabel.1.1
    exact .advanceBy_two hpeek (isDelimiter_of_isIdentifier hidentifier) hlabel.1.2
      fun _ h => isDelimiter_of_isSymbol h (by decide)
  · exact .refl c

theorem Delimits.keywordStatement (hg : g.Delimits) (scope : Scope) (attributes : List Attribute)
    {keyword : Lexeme} (hpeek : c.peek? = some keyword) (hkind : keyword.kind = .token .keyword) :
    (g.keywordStatement scope attributes keyword c).Meets fun r => c.Nests r.2 := by
  have hplain : c.Nests c.advance :=
    .advance_of_peek? hpeek (isDelimiter_of_token hkind)
  have hword : ∀ word, keyword.text = word → keyword.isKeyword word = true := by
    rintro word rfl
    rw [isKeyword, hkind, BEq.rfl, BEq.rfl, Bool.and_true]
  have hfunction : ∀ word ∈ functionWords, keyword.text = word →
      functionWords.any keyword.isKeyword = true :=
    fun word hmem htext => List.any_eq_true.2 ⟨word, hmem, hword word htext⟩
  have hjump : (g.jumpValue c.advance).Meets fun r => c.Nests r.2 :=
    (hg.jumpValue c.advance).mono fun _ => hplain.trans
  have hlabel : Outcome.Meets (fun r : List Node × Cursor => c.Nests r.2)
      (.ok ([], skipJumpLabel c.advance)) := hplain.trans (nests_skipJumpLabel c.advance)
  have hline : Outcome.Meets (fun r : List Node × Cursor => c.Nests r.2)
      (do return ([], ← c.skipLine)) := (meets_skipLine_nests hplain).bind fun _ h => h
  rw [Grammar.keywordStatement]
  split
  case h_1 | h_2 => exact hg.bindings scope attributes hplain
  case h_3 htext | h_4 htext | h_5 htext | h_6 htext =>
    exact hg.function scope attributes hpeek (hfunction _ (by decide) htext)
  case h_7 | h_8 | h_9 | h_10 | h_11 | h_12 => exact hg.typeDeclaration attributes keyword hplain
  case h_13 htext => exact hg.forEach hpeek (hword _ htext)
  case h_14 htext => exact hg.whileLoop hpeek (hword _ htext)
  case h_15 => exact hg.repeatWhile keyword hplain
  case h_16 htext => exact (hg.ifStatement hpeek (hword _ htext)).bind fun _ h => h
  case h_17 htext => exact hg.guardStatement hpeek (hword _ htext)
  case h_18 => exact hg.switchStatement keyword hplain
  case h_19 => exact hg.doStatement hplain
  case h_20 => exact (hg.block c.advance).bind fun _ h => hplain.trans h
  case h_21 | h_22 => exact hjump
  case h_23 | h_24 | h_25 => exact hlabel
  case h_26 | h_27 | h_28 | h_29 | h_30 => exact hline
  case h_31 => exact (hg.expressionStatement c).mono fun _ h => h.nests

theorem Delimits.statement (hg : g.Delimits) (scope : Scope) (c : Cursor) :
    (g.statement scope c).Meets fun r => c.Enters r.2 := by
  rw [Grammar.statement]
  apply (meets_modifiers_nests (skipStatementLabel c)).bind
  rintro ⟨attributes, c₁⟩ hmodifiers
  have hbefore := (nests_skipStatementLabel c).trans hmodifiers
  dsimp only
  split
  · rename_i hnone
    exact .of_nests hbefore (.of_not_isOpener (.refl c₁) (by rw [next, hnone, Option.any_none]))
  · rename_i lexeme hpeek
    have hplain : lexeme.isDelimiter = false → ∀ {later : Cursor}, c₁.Nests later → c.Enters later :=
      fun h _ hnests =>
        .of_nests hbefore (.of_not_isOpener hnests (next_isOpener_of_not_isDelimiter hpeek h))
    have hexpression : (g.expressionStatement c₁).Meets fun r => c.Enters r.2 :=
      (hg.expressionStatement c₁).mono fun _ => .of_nests hbefore
    split
    · rename_i hkind
      exact (hg.keywordStatement scope attributes hpeek hkind).mono fun _ =>
        hplain (isDelimiter_of_token hkind)
    · rename_i hkind
      have hword := isDelimiter_of_token hkind
      split
      · exact (meets_skipLine_nests (.advance_of_peek? hpeek hword)).bind fun _ => hplain hword
      · exact hexpression
    all_goals exact hexpression

theorem Delimits.statementRound (hg : g.Delimits) (scope : Scope) (inSwitch : Bool)
    (nodes : List Node) (c : Cursor) :
    (g.statementRound scope inSwitch nodes c).Meets fun r => c.Nests r.2 := by
  rw [Grammar.statementRound]
  split
  · exact Cursor.Nests.refl c
  · rename_i lexeme hpeek
    dsimp only
    split
    · exact Cursor.Nests.refl c
    · split
      · rename_i hsemicolon
        exact Cursor.Nests.advance_of_peek? hpeek (isDelimiter_of_isSymbol hsemicolon (by decide))
      · split
        · exact Outcome.meets_unexpected _
        · rename_i hcloser
          exact (hg.statement scope c).bind fun _ h => h.stall hpeek (Bool.eq_false_iff.2 hcloser)

theorem Delimits.statementsBody (hg : g.Delimits) (scope : Scope) (inSwitch : Bool) (c : Cursor) :
    (g.statementsBody scope inSwitch c).Meets fun r => c.Nests r.2 :=
  meets_repeatRounds_nests (hg.statementRound scope inSwitch) [] c

/-! ### Nesting -/

theorem Delimits.deeper (hg : g.Delimits) : g.deeper.Delimits where
  statements := hg.statementsBody
  expression := hg.expressionBody
  ifStatement := hg.ifBody

theorem delimits_exhausted : exhausted.Delimits where
  statements _ _ _ := trivial
  expression _ _ := trivial
  ifStatement _ _ := trivial

theorem delimits_ofDepth (depth : Nat) : (ofDepth depth).Delimits := by
  induction depth with
  | zero => exact delimits_exhausted
  | succ depth ih => exact ih.deeper

/-- The lexemes of a file nest. -/
theorem meets_file_nests (lexemes : List Lexeme) (sourceStop : Nat) :
    (file lexemes sourceStop).Meets fun _ => Grammar.Nests .code lexemes [] := by
  rw [file]
  apply ((delimits_ofDepth _).statements .topLevel false ⟨lexemes, 0, sourceStop⟩).bind
  rintro ⟨nodes, later⟩ hnests
  dsimp only
  split
  · exact Outcome.meets_unexpected _
  · rename_i hnone
    rw [peek?, List.head?_eq_none_iff] at hnone
    exact hnone ▸ hnests

end Grammar

namespace Snapshot

variable {source : String} {snapshot : Snapshot} {lexemes : List Lexeme}

/-- The lexemes of a text that has a structure nest, as far as the grammar looks. So the delimiters of the
text are balanced, if it has no place where the grammar takes them unseen and they do not open more groups
than they close. -/
theorem nests_of_ofSource (h : ofSource source = .ok snapshot)
    (hlexemes : Lexeme.ofSource source = .ok lexemes) :
    Grammar.Nests .code (Lexeme.significant "" lexemes) [] ∧
      (Grammar.exposesDelimiters (Lexeme.significant "" lexemes) = true →
        (Lexeme.significant "" lexemes).countP Lexeme.isOpener ≤
          (Lexeme.significant "" lexemes).countP Lexeme.isCloser →
        Lexeme.isBalanced [] (Lexeme.significant "" lexemes) = true) := by
  have hnests : Grammar.Nests .code (Lexeme.significant "" lexemes) [] := by
    have hfile := Grammar.meets_file_nests (Lexeme.significant "" lexemes) source.utf8ByteSize
    simp only [ofSource, hlexemes, bind, Except.bind] at h
    split at h
    · rename_i forest hforest
      rw [hforest] at hfile
      exact hfile
    · cases h
    · cases h
  exact ⟨hnests, hnests.isBalanced⟩

/-- A function with a condition and an array has no such place. -/
example : ((Lexeme.ofSource "func f(a: [Int]) \x7b if let b = a.first \x7b g([b]) \x7d \x7d").toOption.any
    fun lexemes => Grammar.exposesDelimiters (Lexeme.significant "" lexemes)) = true := by
  decide +kernel

/-- In each place where the grammar takes delimiters unseen a text with a structure may lack balance: in the
pattern of a loop, in the captures and in the parameters of a closure, in the name that a condition binds, and
in the name and in the parameters of a function. -/
theorem unbalanced_ofSource :
    ∀ source ∈ ["for (a, b] in c \x7b\x7d", "for \x7d in a \x7b\x7d", "f \x7b [)] in \x7d",
        "f \x7b ( in \x7d", "if let ] = a \x7b\x7d", "func ) \x7b\x7d", "func f([) \x7b\x7d"],
      (ofSource source).toOption.isSome = true ∧
        ((Lexeme.ofSource source).toOption.any fun lexemes =>
          !Lexeme.isBalanced [] (Lexeme.significant "" lexemes)) = true := by
  decide +kernel

end Snapshot

end SourceLint
