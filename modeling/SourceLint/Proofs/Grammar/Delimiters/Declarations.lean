import SourceLint.Grammar.Declaration
import SourceLint.Proofs.Grammar.Delimiters.Expressions

/-!
# Declarations take what nests

A function takes the lexeme behind its keyword for its name, whatever it is. In its list of parameters a
closing delimiter is refused and an opening one may be skipped; a parameter that begins with one is empty.
-/

namespace SourceLint.Grammar

open Lexeme Cursor

variable {g : Grammar} {c : Cursor}

theorem isDelimiter_of_isAttribute {lexeme : Lexeme} (h : lexeme.isAttribute = true) :
    lexeme.isDelimiter = false := by
  rw [isAttribute, Bool.and_eq_true, beq_iff_eq] at h
  exact isDelimiter_of_token h.1

theorem isDelimiter_of_modifierKind? {lexeme : Lexeme} {kind : Option AttributeKind}
    (hpeek : c.peek? = some lexeme) (h : modifierKind? c = some kind) : lexeme.isDelimiter = false := by
  rw [modifierKind?, hpeek] at h
  dsimp only at h
  split at h
  · rename_i hattribute
    exact isDelimiter_of_isAttribute hattribute
  · split at h
    · rename_i hmodifier
      rw [atModifier, hpeek] at hmodifier
      split at hmodifier
      · rename_i hlexeme _
        obtain rfl := Option.some.inj hlexeme
        rw [Bool.and_eq_true] at hmodifier
        have hdisjoint : ∀ text ∈ modifierWords, delimiters.contains text = false := by decide
        exact isDelimiter_of_text (hdisjoint _ (List.contains_iff_mem.1 hmodifier.1))
      · cases hmodifier
    · cases h

theorem meets_modifierRound_nests (attributes : List Attribute) (c : Cursor) :
    (modifierRound attributes c).Meets fun r => c.Nests r.2 := by
  rw [modifierRound]
  split
  · exact Cursor.Nests.refl c
  · rename_i kind hkind
    obtain ⟨lexeme, hpeek⟩ : ∃ lexeme, c.peek? = some lexeme := by
      cases hpeek : c.peek? with
      | none => rw [modifierKind?, hpeek] at hkind; cases hkind
      | some lexeme => exact ⟨lexeme, rfl⟩
    have hmodifier : c.Nests c.advance :=
      .advance_of_peek? hpeek (isDelimiter_of_modifierKind? hpeek hkind)
    exact (meets_skipAttachedGroup_nests c.advance).bind fun _ => hmodifier.trans

theorem meets_modifiers_nests (c : Cursor) : (modifiers c).Meets fun r => c.Nests r.2 :=
  meets_repeatRounds_nests meets_modifierRound_nests [] c

/-- Statements between braces. -/
theorem Delimits.braced (hg : g.Delimits) {opener : Lexeme} {first : Cursor}
    (hopener : opener.isSymbol "\x7b" = true) (hahead : first.ahead = opener :: c.ahead) (scope : Scope) :
    (g.statements scope false c).Meets fun r => ∀ (closer : Lexeme) (later : Cursor),
      closer.isSymbol "\x7d" = true → r.2.ahead = closer :: later.ahead → first.Nests later := by
  apply (hg.statements scope false c).mono
  rintro ⟨statements, c₂⟩ hstatements closer later hcloser hahead₂
  exact (Enters.group hahead (closes_curly hopener hcloser) (.inl rfl) (hahead₂ ▸ hstatements)).nests

theorem Delimits.block (hg : g.Delimits) (c : Cursor) : (g.block c).Meets fun r => c.Nests r.2 := by
  rw [Grammar.block]
  apply (meets_expectSymbol_ahead c _ _).bind
  rintro ⟨opener, c₁⟩ ⟨hopener, hahead⟩
  apply (hg.braced hopener hahead .functionBody).bind
  rintro ⟨statements, c₂⟩ hstatements
  apply (meets_expectCloser_ahead c₂ _ _).bind
  rintro ⟨closer, c₃⟩ ⟨hcloser, hahead₂⟩
  exact hstatements closer c₃ hcloser hahead₂

/-! ### Variables -/

theorem meets_variablePattern_nests (c : Cursor) : (variablePattern c).Meets fun r => c.Nests r.2 := by
  rw [variablePattern]
  split
  · exact Outcome.meets_expected _ _
  · rename_i lexeme hpeek
    split
    · exact (meets_skipGroup_nests c).bind fun _ h => h
    · split
      · rename_i hword
        exact Cursor.Nests.advance_of_peek? hpeek (isDelimiter_of_isWord hword)
      · exact Outcome.meets_expected _ _

theorem Delimits.variableValue (hg : g.Delimits) (c : Cursor) :
    (g.variableValue c).Meets fun r => c.Nests r.2 := by
  rw [Grammar.variableValue]
  split
  · rename_i hequals
    apply (hg.expression true c.advance).bind
    rintro ⟨e, later⟩ he
    dsimp only
    split
    · exact (nests_atSymbol hequals (by decide)).trans he.nests
    · exact Outcome.meets_expected _ _
  · split
    · exact (hg.block c).bind fun _ h => h
    · exact Cursor.Nests.refl c

theorem Delimits.variableRound (hg : g.Delimits) (scope : Scope) (attributes : List Attribute)
    (state : List Node × Nat) (c : Cursor) :
    (g.variableRound scope attributes state c).Meets fun r => c.Nests r.2 := by
  rw [Grammar.variableRound]
  apply (meets_variablePattern_nests c).bind
  rintro ⟨name, c₁⟩ hname
  refine (meets_skipDeclaredType_nests c₁).bind fun c₂ htype => ?_
  apply (hg.variableValue c₂).bind
  rintro ⟨children, c₃⟩ hchildren
  have hvariable := hname.trans (htype.trans hchildren)
  dsimp only
  split
  · rename_i hcomma
    exact hvariable.trans (nests_atSymbol hcomma (by decide))
  · exact hvariable

theorem Delimits.bindings (hg : g.Delimits) (scope : Scope) (attributes : List Attribute)
    (hkeyword : c.Nests c.advance) : (g.bindings scope attributes c).Meets fun r => c.Nests r.2 :=
  (meets_repeatRounds_nests (hg.variableRound scope attributes) ([], c.here) c.advance).mono
    fun _ => hkeyword.trans

/-! ### Functions -/

theorem Delimits.defaultValue (hg : g.Delimits) (c : Cursor) :
    (g.defaultValue c).Meets fun r => c.Nests r.2 := by
  rw [Grammar.defaultValue]
  split
  · rename_i hequals
    exact (hg.expression true c.advance).bind fun _ he =>
      (nests_atSymbol hequals (by decide)).trans he.nests
  · exact Cursor.Nests.refl c

theorem Delimits.parameterRound (hg : g.Delimits) (opener : Lexeme) (nodes : List Node)
    {middle : Cursor} (h : Grammar.Nests .parameters c.ahead middle.ahead) :
    (g.parameterRound opener nodes middle).Meets
      (Round.Keeps (fun _ later => Grammar.Nests .parameters c.ahead later.ahead) fun _ later =>
        ∃ closer : Lexeme, closer.isSymbol ")" = true ∧
          Grammar.Nests .parameters c.ahead (closer :: later.ahead)) := by
  rw [Grammar.parameterRound]
  split
  · exact Outcome.meets_unclosed _
  · rename_i lexeme hpeek
    have htake : lexeme.isCloser = false → Grammar.Nests .parameters c.ahead middle.advance.ahead := by
      intro hcloser
      refine h.trans ?_
      rw [ahead_of_peek? hpeek]
      cases hopener : lexeme.isOpener with
      | true => exact .of_takes (.stray hopener)
      | false => exact .plain (by rw [isDelimiter_eq, hopener, hcloser]; rfl)
    split
    · rename_i hclosing
      exact ⟨lexeme, hclosing, ahead_of_peek? hpeek ▸ h⟩
    · split
      · rename_i hcomma
        have hplain := isDelimiter_of_isSymbol hcomma (by decide)
        rw [isDelimiter_eq, Bool.or_eq_false_iff] at hplain
        exact htake hplain.2
      · split
        · exact Outcome.meets_unexpected _
        · rename_i hcloser
          dsimp only
          have hwords : middle.Nests (middle.advanceBy (middle.ahead.takeWhile isWord).length) :=
            .takeWhile fun _ => isDelimiter_of_isWord
          refine (meets_skipDeclaredType_nests _).bind fun afterType htype => ?_
          apply (hg.defaultValue afterType).bind
          rintro ⟨children, later⟩ hchildren
          dsimp only
          split
          · exact htake (Bool.eq_false_iff.2 hcloser)
          · exact h.trans (hwords.trans (htype.trans hchildren)).inParameters

/-- The list of parameters behind the head of a function. -/
theorem Delimits.parameters (hg : g.Delimits) {keyword : Lexeme} {xs : List Lexeme}
    (hkeyword : functionWords.any keyword.isKeyword = true)
    (hhead : Grammar.Nests .code (keyword :: xs) c.ahead) :
    (g.parameters c).Meets fun r => Grammar.Nests .code (keyword :: xs) r.2.ahead := by
  rw [Grammar.parameters]
  split
  · rename_i opener hpeek
    split
    · rename_i hopener
      rw [ahead_of_peek? hpeek] at hhead
      apply (meets_repeatRounds (fun nodes _ h => hg.parameterRound (c := c.advance) opener nodes h)
        (Grammar.Nests.refl _ _)).mono
      rintro ⟨nodes, later⟩ ⟨closer, hcloser, hinside⟩
      exact .parameters hkeyword hhead (closes_round hopener hcloser) hinside (.refl _ _)
    · exact hhead
  · exact hhead

theorem meets_functionName_nests {keyword : Lexeme} (hpeek : c.peek? = some keyword)
    (hkind : keyword.kind = .token .keyword) :
    (functionName keyword c.advance).Meets fun r => c.Nests r.2 := by
  rw [functionName]
  split
  · rename_i hfunc
    have hkeyword : keyword.isKeyword "func" = true := by rw [isKeyword, hkind, hfunc]; rfl
    split
    · rename_i name hname
      change Grammar.Nests .code c.ahead c.advance.advance.ahead
      rw [ahead_of_peek? hpeek, ahead_of_peek? hname]
      exact .of_takes (.name hkeyword)
    · exact Outcome.meets_expected _ _
  · have hplain := isDelimiter_of_token hkind
    exact (Cursor.Nests.advance_of_peek? hpeek hplain).trans (nests_skipPostfixOperator c.advance)

/-- The requirements behind `where`, up to the opening brace. -/
theorem meets_whereToBrace_nests {middle : Cursor} (h : c.Nests middle) :
    Outcome.Meets c.Nests (if middle.atKeyword "where" then middle.skipToBrace else .ok middle) := by
  split
  · exact (meets_skipToBrace_nests middle).mono fun _ => h.trans
  · exact h

theorem meets_skipFunctionType_nests (c : Cursor) : (skipFunctionType c).Meets c.Nests := by
  rw [skipFunctionType]
  dsimp only
  have heffects : c.Nests (c.advanceBy (c.ahead.takeWhile fun l =>
      l.isKeyword "async" || l.isKeyword "throws" || l.isKeyword "rethrows").length) := by
    apply Cursor.Nests.takeWhile
    intro lexeme
    exact isDelimiter_of_or (isDelimiter_of_or isDelimiter_of_isKeyword isDelimiter_of_isKeyword)
      isDelimiter_of_isKeyword
  split
  · rename_i harrow
    refine (meets_skipType_nests _).bind fun afterType htype => ?_
    exact meets_whereToBrace_nests
      (heffects.trans ((nests_atSymbol harrow (by decide)).trans htype))
  · exact meets_whereToBrace_nests heffects

theorem Delimits.functionBody (hg : g.Delimits) (c : Cursor) :
    (g.functionBody c).Meets fun r => c.Nests r.2 := by
  rw [Grammar.functionBody]
  split
  · exact (hg.block c).bind fun _ h => h
  · exact Cursor.Nests.refl c

theorem Delimits.function (hg : g.Delimits) (scope : Scope) (attributes : List Attribute)
    {keyword : Lexeme} (hpeek : c.peek? = some keyword)
    (hkeyword : functionWords.any keyword.isKeyword = true) :
    (g.function scope attributes keyword c).Meets fun r => c.Nests r.2 := by
  have hkind : keyword.kind = .token .keyword := by
    obtain ⟨word, -, hword⟩ := List.any_eq_true.1 hkeyword
    rw [isKeyword, Bool.and_eq_true, beq_iff_eq] at hword
    exact hword.1
  rw [Grammar.function]
  apply (meets_functionName_nests hpeek hkind).bind
  rintro ⟨name, c₁⟩ hname
  refine (meets_skipGenericParameters_nests c₁).bind fun c₂ hgeneric => ?_
  have hhead : Grammar.Nests .code (keyword :: c.advance.ahead) c₂.ahead :=
    ahead_of_peek? hpeek ▸ hname.trans hgeneric
  apply (hg.parameters hkeyword hhead).bind
  rintro ⟨parameters, c₃⟩ hparameters
  rw [← ahead_of_peek? hpeek] at hparameters
  refine (meets_skipFunctionType_nests c₃).bind fun c₄ htype => ?_
  exact (hg.functionBody c₄).bind fun _ hbody => Cursor.Nests.trans hparameters (htype.trans hbody)

/-! ### Types -/

theorem isDelimiter_of_mem_typeName (lexemes : List Lexeme) :
    ∀ lexeme ∈ lexemes.take (typeNameLength lexemes), lexeme.isDelimiter = false := by
  fun_induction typeNameLength lexemes with
  | case1 => simp
  | case2 lexeme hname point others hpoint ih =>
      rw [List.take_succ_cons, List.take_succ_cons, List.forall_mem_cons, List.forall_mem_cons]
      exact ⟨isDelimiter_of_isIdentifier hname, isDelimiter_of_isSymbol hpoint (by decide), ih⟩
  | case3 lexeme hname | case4 lexeme hname => simpa using isDelimiter_of_isIdentifier hname
  | case5 => simp

theorem meets_inheritanceRound_nests (state : Unit) (c : Cursor) :
    (inheritanceRound state c).Meets fun r => c.Nests r.2 := by
  rw [inheritanceRound]
  refine (meets_skipType_nests c).bind fun later hlater => ?_
  split
  · rename_i hcomma
    exact hlater.trans (nests_atSymbol hcomma (by decide))
  · exact hlater

theorem meets_skipTypeHead_nests (c : Cursor) : (skipTypeHead c).Meets c.Nests := by
  rw [skipTypeHead]
  refine (meets_skipGenericParameters_nests c).bind fun c₁ hgeneric => ?_
  split
  · rename_i hcolon
    apply (meets_repeatRounds_nests meets_inheritanceRound_nests () c₁.advance).bind
    rintro ⟨_, c₂⟩ htypes
    exact meets_whereToBrace_nests
      (hgeneric.trans ((nests_atSymbol hcolon (by decide)).trans htypes))
  · exact meets_whereToBrace_nests hgeneric

theorem Delimits.typeDeclaration (hg : g.Delimits) (attributes : List Attribute) (keyword : Lexeme)
    (hkeyword : c.Nests c.advance) :
    (g.typeDeclaration attributes keyword c).Meets fun r => c.Nests r.2 := by
  rw [Grammar.typeDeclaration]
  dsimp only
  have hname : c.advance.Nests (c.advance.advanceBy (typeNameLength c.advance.ahead)) :=
    .advanceBy (isDelimiter_of_mem_typeName c.advance.ahead)
  split
  · exact Outcome.meets_expected _ _
  · refine (meets_skipTypeHead_nests _).bind fun c₂ hhead => ?_
    apply (meets_expectSymbol_ahead c₂ _ _).bind
    rintro ⟨opener, c₃⟩ ⟨hopener, hahead⟩
    apply (hg.braced hopener hahead .typeBody).bind
    rintro ⟨members, c₄⟩ hmembers
    apply (meets_expectCloser_ahead c₄ _ _).bind
    rintro ⟨closer, c₅⟩ ⟨hcloser, hahead₄⟩
    exact hkeyword.trans (hname.trans (hhead.trans (hmembers closer c₅ hcloser hahead₄)))

end SourceLint.Grammar
