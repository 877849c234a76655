import SourceLint.Proofs.Grammar.Delimiters.Skipping
import SourceLint.Proofs.Grammar.Expressions

/-!
# Expressions take what nests

An expression that begins with an opening delimiter takes the group, so a lexeme that is skipped because
nothing begins with it is never an opening delimiter. Of the head of a closure no more is known than what
the lookahead has found: the capture list ends at the first bracket that is not part of a captured value.
-/

namespace SourceLint.Grammar

open Lexeme Cursor

/-- The productions of the grammar take what nests. -/
structure Delimits (g : Grammar) : Prop where
  statements : ∀ scope inSwitch c, (g.statements scope inSwitch c).Meets fun r => c.Nests r.2
  expression : ∀ trailing c, (g.expression trailing c).Meets fun r => c.Enters r.2
  ifStatement : ∀ {c keyword}, c.peek? = some keyword → keyword.isKeyword "if" = true →
    (g.ifStatement c).Meets fun r => c.Nests r.2

variable {g : Grammar} {c : Cursor}

/-- Punctuation with the text of a symbol is the symbol. -/
theorem isSymbol_of_text {lexeme : Lexeme} {text : String} (hkind : lexeme.kind = .punctuation)
    (htext : (lexeme.text == text) = true) : lexeme.isSymbol text = true := by
  rw [isSymbol, hkind, htext]
  rfl

/-- A symbol that is no delimiter is taken. -/
theorem nests_atSymbol {text : String} (h : c.atSymbol text = true)
    (hplain : delimiters.contains text = false) : c.Nests c.advance :=
  .advance_of_next h fun _ hsymbol => isDelimiter_of_isSymbol hsymbol hplain

theorem nests_atKeyword {word : String} (h : c.atKeyword word = true) : c.Nests c.advance :=
  .advance_of_next h fun _ => isDelimiter_of_isKeyword

/-! ### Groups of expressions -/

theorem Delimits.expressionOrLexeme (hg : g.Delimits) {lexeme : Lexeme} (hpeek : c.peek? = some lexeme)
    (hcloser : lexeme.isCloser = false) :
    (g.expressionOrLexeme c).Meets fun r => c.Nests r.2 :=
  (hg.expression true c).bind fun _ h => h.stall hpeek hcloser

theorem Delimits.argumentRound (hg : g.Delimits) (opener : Lexeme) (closing : String)
    (nodes : List Node) {middle : Cursor} (h : c.Nests middle) :
    (g.argumentRound opener closing nodes middle).Meets
      (Round.Keeps (fun _ later => c.Nests later) fun r later =>
        r.2.isSymbol closing = true ∧ Grammar.Nests .code c.ahead (r.2 :: later.ahead)) := by
  rw [Grammar.argumentRound]
  split
  · exact Outcome.meets_unclosed _
  · rename_i lexeme hpeek
    split
    · rename_i hclosing
      exact ⟨hclosing, ahead_of_peek? hpeek ▸ h⟩
    · split
      · rename_i hseparator
        have hplain : lexeme.isDelimiter = false :=
          isDelimiter_of_or (isDelimiter_of_isSymbol · (by decide)) (isDelimiter_of_isSymbol · (by decide))
            hseparator
        exact h.trans (.advance_of_peek? hpeek hplain)
      · split
        · exact Outcome.meets_unexpected _
        · rename_i hcloser
          split
          · rename_i hlabel
            rw [Bool.and_eq_true] at hlabel
            exact h.trans (.advanceBy_two hpeek (isDelimiter_of_isWord hlabel.1) hlabel.2 fun _ hcolon =>
              isDelimiter_of_isSymbol hcolon (by decide))
          · exact (hg.expressionOrLexeme hpeek (Bool.eq_false_iff.2 hcloser)).bind fun _ hmore =>
              h.trans hmore

theorem Delimits.arguments (hg : g.Delimits) (opener : Lexeme) (closing : String) (c : Cursor) :
    (g.arguments opener closing c).Meets fun r =>
      r.1.2.isSymbol closing = true ∧ Grammar.Nests .code c.ahead (r.1.2 :: r.2.ahead) :=
  meets_repeatRounds (fun nodes _ h => hg.argumentRound opener closing nodes h) (.refl c)

/-- A group of arguments together with its opening delimiter. -/
theorem Delimits.argumentGroup (hg : g.Delimits) {opener : Lexeme} (hpeek : c.peek? = some opener)
    {closing : String}
    (hcloses : ∀ closer : Lexeme, closer.isSymbol closing = true → closer.closes opener = true) :
    (g.arguments opener closing c.advance).Meets fun r => c.Enters r.2 := by
  apply (hg.arguments opener closing c.advance).mono
  rintro ⟨⟨nodes, closer⟩, later⟩ ⟨hcloser, hinside⟩
  exact .group (ahead_of_peek? hpeek) (hcloses closer hcloser) (.inl rfl) hinside

theorem Delimits.itemRound (hg : g.Delimits) (opener : Lexeme) (state : List Node × Bool)
    {middle : Cursor} (h : c.Nests middle) :
    (g.itemRound opener state middle).Meets
      (Round.Keeps (fun _ later => c.Nests later) fun r later =>
        r.2.2.isSymbol "]" = true ∧ Grammar.Nests .code c.ahead (r.2.2 :: later.ahead)) := by
  rw [Grammar.itemRound]
  dsimp only
  split
  · exact Outcome.meets_unclosed _
  · rename_i lexeme hpeek
    split
    · rename_i hclosing
      exact ⟨hclosing, ahead_of_peek? hpeek ▸ h⟩
    · split
      · rename_i hcolon
        exact h.trans (.advance_of_peek? hpeek (isDelimiter_of_isSymbol hcolon (by decide)))
      · split
        · rename_i hcomma
          exact h.trans (.advance_of_peek? hpeek (isDelimiter_of_isSymbol hcomma (by decide)))
        · split
          · exact Outcome.meets_unexpected _
          · rename_i hcloser
            exact (hg.expressionOrLexeme hpeek (Bool.eq_false_iff.2 hcloser)).bind fun _ hmore =>
              h.trans hmore

theorem Delimits.collection (hg : g.Delimits) {opener : Lexeme} (hpeek : c.peek? = some opener)
    (hopener : opener.isSymbol "[" = true) :
    (g.collection opener c.advance).Meets fun r => c.Enters r.2 := by
  refine (meets_repeatRounds (fun state _ h => hg.itemRound opener state h)
    (Cursor.Nests.refl c.advance)).bind ?_
  rintro ⟨⟨nodes, isDictionary, closer⟩, later⟩ ⟨hcloser, hinside⟩
  exact .group (ahead_of_peek? hpeek) (closes_square hopener hcloser) (.inl rfl) hinside

/-! ### Closures -/

theorem takesSignature_closureParameters (c : Cursor) :
    (closureParameters c).2.ahead = c.ahead ∨ TakesSignature c.ahead (closureParameters c).2.ahead := by
  rw [closureParameters]
  split
  · rename_i n hn
    rw [ahead_advanceBy]
    exact .inr (takesSignature_of_signatureLength? hn)
  · exact .inl rfl

/-- A capture list only takes lexemes, and it ends with a bracket. -/
theorem Delimits.captureRound (hg : g.Delimits) (opener : Lexeme) (nodes : List Node)
    {middle : Cursor} (h : middle.ahead <:+ c.ahead) :
    (g.captureRound opener nodes middle).Meets
      (Round.Keeps (fun _ later => later.ahead <:+ c.ahead) fun _ later =>
        ∃ closer : Lexeme, closer.isSymbol "]" = true ∧ closer :: later.ahead <:+ c.ahead) := by
  rw [Grammar.captureRound]
  split
  · exact Outcome.meets_unclosed _
  · rename_i lexeme hpeek
    have hadvance : middle.advance.ahead <:+ c.ahead := (Reaches.advance middle).suffix.trans h
    split
    · rename_i hclosing
      exact ⟨lexeme, hclosing, ahead_of_peek? hpeek ▸ h⟩
    · split
      · exact hadvance
      · apply (meets_captureSpecifier middle).bind
        rintro ⟨attributes, afterSpecifier⟩ hspecifier
        dsimp only
        generalize hname : afterSpecifier.peek?.filter _ = name
        have hafterName : (if name.isSome then afterSpecifier.advance else afterSpecifier).ahead <:+
            c.ahead := by
          split
          · exact (hspecifier.trans (.advance _)).suffix.trans h
          · exact hspecifier.suffix.trans h
        generalize (if name.isSome then afterSpecifier.advance else afterSpecifier) = afterName
          at hafterName
        -- the rest of the round, whatever the captured value is
        have hfinish : ∀ (node : Node) (later : Cursor), later.ahead <:+ c.ahead → Outcome.Meets
            (Round.Keeps (fun _ later => later.ahead <:+ c.ahead) fun (_ : List Node) later =>
              ∃ closer : Lexeme, closer.isSymbol "]" = true ∧ closer :: later.ahead <:+ c.ahead)
            (if middle.hasStalled later then .ok (Round.again nodes, middle.advance)
            else .ok (Round.again (nodes ++ [node]), later)) := by
          intro node later hlater
          split
          · exact hadvance
          · exact hlater
        split
        · apply (hg.expression true afterName.advance).bind
          rintro ⟨e, later⟩ he
          exact hfinish _ _ (he.nests.suffix.trans ((Reaches.advance afterName).suffix.trans hafterName))
        · exact hfinish _ _ hafterName

theorem Delimits.captureList (hg : g.Delimits) (c : Cursor) :
    (g.captureList c).Meets fun r =>
      r.2.ahead = c.ahead ∨ TakesCaptures c.ahead r.2.ahead := by
  rw [Grammar.captureList]
  split
  · exact .inl rfl
  · rename_i opener ahead hahead
    dsimp only
    split
    · rename_i hcaptures
      rw [Bool.and_eq_true] at hcaptures
      have hadvance : c.advance.ahead = ahead := by rw [advance_of_cons hahead]
      apply (meets_repeatRounds (fun nodes _ h => hg.captureRound (c := c.advance) opener nodes h)
        List.suffix_rfl).mono
      rintro ⟨nodes, later⟩ ⟨closer, hcloser, inside, hinside⟩
      refine .inr ⟨hcaptures.2, opener, inside, closer, ?_, hcaptures.1, hcloser⟩
      rw [hahead, hinside, hadvance]
    · exact .inl rfl

theorem Delimits.closure (hg : g.Delimits) (c : Cursor) :
    (g.closure c).Meets fun r => c.Enters r.2 := by
  rw [Grammar.closure]
  apply (meets_expectSymbol_ahead c _ _).bind
  rintro ⟨opener, c₁⟩ ⟨hopener, hahead₁⟩
  apply (hg.captureList c₁).bind
  rintro ⟨captures, c₂⟩ hcaptures
  have hsignature := takesSignature_closureParameters c₂
  dsimp only
  generalize closureParameters c₂ = signature at hsignature
  obtain ⟨parameters, c₃⟩ := signature
  apply (hg.statements _ _ c₃).bind
  rintro ⟨statements, c₄⟩ hstatements
  apply (meets_expectCloser_ahead c₄ _ _).bind
  rintro ⟨closer, c₅⟩ ⟨hcloser, hahead₄⟩
  exact .group hahead₁ (closes_curly hopener hcloser) (.inr ⟨hopener, _, hcaptures, hsignature⟩)
    (hahead₄ ▸ hstatements)

/-! ### Operands -/

theorem nests_atMember (h : atMember c = true) : c.Nests (c.advanceBy 2) := by
  rw [atMember, Bool.and_eq_true] at h
  obtain ⟨lexeme, hpeek, hpoint⟩ := (Option.any_eq_true _ _).1 h.1
  refine .advanceBy_two hpeek (isDelimiter_of_isSymbol hpoint (by decide)) h.2 ?_
  intro name hname
  rw [Bool.and_eq_true, isMemberName, Bool.or_eq_true, beq_iff_eq] at hname
  exact hname.1.elim isDelimiter_of_isWord isDelimiter_of_token

/-- An operand takes the lexeme that it begins with, so none is missing where a group opens. -/
theorem Delimits.primary (hg : g.Delimits) (c : Cursor) :
    (g.primary c).Meets fun r => c.Enters r.2 := by
  rw [Grammar.primary]
  split
  · rename_i hnone
    exact .of_not_isOpener (.refl c) (by rw [next, hnone, Option.any_none])
  · rename_i lexeme hpeek
    have hplain : lexeme.isDelimiter = false → c.next isOpener = false :=
      next_isOpener_of_not_isDelimiter hpeek
    have htake : lexeme.isDelimiter = false →
        Outcome.Meets (fun r : Option (List Node) × Cursor => c.Enters r.2) (.ok (some [], c.advance)) :=
      fun h => .of_not_isOpener (.advance_of_peek? hpeek h) (hplain h)
    have hnone : lexeme.isDelimiter = false →
        Outcome.Meets (fun r : Option (List Node) × Cursor => c.Enters r.2) (.ok (none, c)) :=
      fun h => .of_not_isOpener (.refl c) (hplain h)
    split
    case h_1 hkind | h_2 hkind | h_3 hkind =>
      exact htake (isDelimiter_of_token hkind)
    case h_4 hkind =>
      have hword := isDelimiter_of_token hkind
      split
      · exact htake hword
      · exact hnone hword
    case h_5 hkind =>
      split
      · rename_i htext
        exact (hg.argumentGroup hpeek fun _ => closes_round (isSymbol_of_text hkind htext)).bind
          fun _ h => h
      · rename_i hround
        split
        · rename_i htext
          exact (hg.collection hpeek (isSymbol_of_text hkind htext)).bind fun _ h => h
        · rename_i hsquare
          split
          · exact (hg.closure c).bind fun _ h => h
          · rename_i hcurly
            have hopener : c.next isOpener = false := by
              rw [next, hpeek, Option.any_some, isOpener, isSymbol, isSymbol, isSymbol,
                Bool.eq_false_iff.2 hround, Bool.eq_false_iff.2 hsquare, Bool.eq_false_iff.2 hcurly]
              simp only [Bool.and_false, Bool.or_false]
            split
            · split
              · rename_i hmember
                exact .of_not_isOpener (nests_atMember hmember) hopener
              · exact .of_not_isOpener (.refl c) hopener
            · split
              · rename_i hslash
                exact htake (isDelimiter_of_text (eq_of_beq hslash ▸ by decide))
              · exact .of_not_isOpener (.refl c) hopener
    case h_6 hkind =>
      exact hnone (isDelimiter_of_token hkind)

theorem Delimits.suffixRound (hg : g.Delimits) (trailing : Bool) (first : Cursor)
    (state : OperandState) (c : Cursor) :
    (g.suffixRound trailing first state c).Meets fun r => c.Nests r.2 := by
  have hstop : Outcome.Meets (fun r : Round OperandState (List Node) × Cursor => c.Nests r.2)
      (.ok (.done state.nodes, c)) := Cursor.Nests.refl c
  rw [Grammar.suffixRound]
  dsimp only
  split
  · exact hstop
  · rename_i lexeme hpeek
    split
    · exact hstop
    · rename_i hkind
      rw [bne_iff_ne, ne_eq, not_not] at hkind
      split
      · split
        · rename_i hmember
          exact nests_atMember hmember
        · exact hstop
      · split
        · rename_i hround
          rw [Bool.and_eq_true] at hround
          exact (hg.argumentGroup hpeek fun _ => closes_round (isSymbol_of_text hkind hround.1)).bind
            fun _ h => h.nests
        · split
          · rename_i hsquare
            rw [Bool.and_eq_true, Bool.and_eq_true] at hsquare
            exact (hg.argumentGroup hpeek fun _ =>
              closes_square (isSymbol_of_text hkind hsquare.1.1)).bind fun _ h => h.nests
          · split
            · exact (hg.closure c).bind fun _ h => h.nests
            · split
              · rename_i hmark
                exact Cursor.Nests.advance_of_peek? hpeek (isDelimiter_of_isPostfixOperator hmark)
              · exact hstop

theorem Delimits.operand (hg : g.Delimits) (trailing : Bool) (c : Cursor) :
    (g.operand trailing c).Meets fun r => c.Enters r.2 := by
  rw [Grammar.operand]
  apply (hg.primary c).bind
  rintro ⟨_ | nodes, later⟩ hprimary
  · exact hprimary
  · apply (meets_repeatRounds_nests (hg.suffixRound trailing c) ⟨nodes, later⟩ later).bind
    intro _ hsuffixes
    exact hprimary.trans hsuffixes

/-! ### Operators -/

theorem isDelimiter_of_mem_operandPrefix (lexemes : List Lexeme) :
    ∀ lexeme ∈ lexemes.take (operandPrefixLength lexemes), lexeme.isDelimiter = false := by
  have hword : ∀ lexeme : Lexeme, (lexeme.isKeyword "try" || lexeme.isKeyword "await") = true →
      lexeme.isDelimiter = false :=
    fun _ => isDelimiter_of_or isDelimiter_of_isKeyword isDelimiter_of_isKeyword
  fun_induction operandPrefixLength lexemes with
  | case1 => simp
  | case2 lexeme hkeyword => simpa using hword lexeme hkeyword
  | case3 lexeme hkeyword mark others hmark ih =>
      rw [List.take_succ_cons, List.take_succ_cons, List.forall_mem_cons, List.forall_mem_cons]
      exact ⟨hword lexeme hkeyword, isDelimiter_of_isPostfixOperator hmark, ih⟩
  | case4 lexeme hkeyword mark others hmark ih =>
      rw [List.take_succ_cons, List.forall_mem_cons]
      exact ⟨hword lexeme hkeyword, ih⟩
  | case5 lexeme lexemes hkeyword hoperator ih =>
      rw [Bool.and_eq_true] at hoperator
      rw [List.take_succ_cons, List.forall_mem_cons]
      exact ⟨isDelimiter_of_isOperator hoperator.1, ih⟩
  | case6 => simp

theorem meets_castRound_nests (state : Unit) (c : Cursor) :
    (castRound state c).Meets fun r => c.Nests r.2 := by
  rw [castRound]
  split
  · rename_i hcast
    have hword : c.Nests c.advance := by
      rw [Bool.or_eq_true] at hcast
      exact hcast.elim nests_atKeyword nests_atKeyword
    exact (meets_skipType_nests _).bind fun _ htype =>
      hword.trans ((nests_skipPostfixOperator c.advance).trans htype)
  · exact Cursor.Nests.refl c

theorem Delimits.operandRound (hg : g.Delimits) (trailing : Bool) (state : ExpressionNodes)
    (c : Cursor) : (g.operandRound trailing state c).Meets fun r => c.Enters r.2 := by
  rw [Grammar.operandRound]
  dsimp only
  have hprefix : c.Nests (c.advanceBy (operandPrefixLength c.ahead)) :=
    .advanceBy (isDelimiter_of_mem_operandPrefix c.ahead)
  apply (hg.operand trailing _).bind
  rintro ⟨_ | more, afterOperand⟩ hoperand
  · exact .of_nests hprefix hoperand
  · apply (meets_repeatRounds_nests meets_castRound_nests () afterOperand).bind
    rintro ⟨_, afterCasts⟩ hcasts
    have hbefore := (Enters.of_nests hprefix hoperand).trans hcasts
    dsimp only
    split
    · exact hbefore
    · rename_i lexeme hpeek
      split
      · exact hbefore
      · rename_i hends
        rw [Bool.or_eq_true, not_or, Bool.not_eq_true', Bool.not_eq_false] at hends
        have hoperator : afterCasts.Nests afterCasts.advance :=
          .advance_of_peek? hpeek (isDelimiter_of_isOperator hends.1)
        split
        · apply (hg.expression trailing afterCasts.advance).bind
          rintro ⟨e, later⟩ he
          have hhalf := hbefore.trans (hoperator.trans he.nests)
          dsimp only
          split
          · rename_i hcolon
            exact hhalf.trans (nests_atSymbol hcolon (by decide))
          · exact hhalf
        · exact hbefore.trans hoperator

theorem Delimits.expressionBody (hg : g.Delimits) (trailing : Bool) (c : Cursor) :
    (g.expressionBody trailing c).Meets fun r => c.Enters r.2 := by
  refine meets_repeatRounds (I := fun _ middle => c.Nests middle) (Q := fun _ later => c.Enters later)
    ?_ (.refl c)
  intro state middle hmiddle
  apply (hg.operandRound trailing state middle).mono
  rintro ⟨state' | result, later⟩ hlater
  · exact hmiddle.trans hlater.nests
  · exact .of_nests hmiddle hlater

end SourceLint.Grammar
