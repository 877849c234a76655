import SourceLint.Grammar.Declaration
import SourceLint.Proofs.Grammar.Declarations
import SourceLint.Proofs.Grammar.Faults.Expressions

/-!
# Faults found in declarations

A declaration begins with its keyword, so what is nested in it has the room of the places behind a lexeme. The
repetitions here take a lexeme in each round: a variable has a name or a pattern, and what is no parameter is taken
one lexeme at a time.
-/

namespace SourceLint.Grammar

open Cursor (HasRoom)

variable {g : Grammar} {start c : Cursor} {budget more : Nat} {opener keyword : Lexeme}

/-! ### Modifiers -/

theorem exists_peek?_of_modifierKind? {kind : Option AttributeKind} (h : modifierKind? c = some kind) :
    ∃ x, c.peek? = some x := by
  rw [modifierKind?] at h
  split at h
  · cases h
  · rename_i lexeme hpeek
    exact ⟨lexeme, hpeek⟩

theorem answers_modifierRound (h : start.Reaches c) (attributes : List Attribute) :
    (modifierRound attributes c).Answers start (Round.Advances c) := by
  rw [modifierRound]
  split
  · exact Cursor.Reaches.refl c
  · rename_i kind hkind
    obtain ⟨x, hpeek⟩ := exists_peek?_of_modifierKind? hkind
    apply (Cursor.answers_skipAttachedGroup (h.trans (.advance c))).bind
    intro later hlater
    exact (Cursor.Passes.advance hpeek).trans_reaches hlater

theorem answers_modifiers (h : start.Reaches c) : (modifiers c).Answers start fun r => c.Reaches r.2 :=
  answers_repeatRounds (fun attributes _ hmiddle => answers_modifierRound (h.trans hmiddle) attributes) []

/-! ### Blocks -/

theorem Handles.block (hg : g.Handles start budget) (h : HasRoom start budget more c) :
    (g.block c).Answers start fun r => c.Passes r.2 := by
  rw [Grammar.block]
  apply (Cursor.answers_expectSymbol h.reached _ _).bind
  rintro ⟨opener, c₁⟩ ⟨hpasses, hopener⟩
  have h₁ := h.passes hpasses
  apply (hg.statements h₁ _ _).bind
  rintro ⟨statements, c₂⟩ hstatements
  apply (Cursor.answers_expectCloser (h₁.reaches hstatements).reached _ hopener).bind
  rintro ⟨closer, c₃⟩ hcloser
  exact hpasses.trans_reaches (hstatements.trans hcloser.1)

/-! ### Variables -/

theorem answers_variablePattern (h : start.Reaches c) :
    (variablePattern c).Answers start fun r => c.Passes r.2 := by
  rw [variablePattern]
  split
  · exact Outcome.answers_expected h _
  · rename_i lexeme hpeek
    split
    · exact ((Cursor.answers_skipGroup h).meets (Cursor.meets_skipGroup_passes hpeek)).bind fun _ h => h
    · split
      · exact Cursor.Passes.advance hpeek
      · exact Outcome.answers_expected h _

theorem Handles.variableValue (hg : g.Handles start budget) (h : HasRoom start budget 1 c) :
    (g.variableValue c).Answers start fun r => c.Reaches r.2 := by
  rw [Grammar.variableValue]
  split
  · apply (hg.expression (h.reaches (.advance c)) true).bind
    rintro ⟨e, later⟩ hlater
    have hreaches := (Cursor.Reaches.advance c).trans hlater
    dsimp only
    split
    · exact hreaches
    · exact Outcome.answers_expected (h.reached.trans hreaches) _
  · split
    · apply (hg.block h).bind
      rintro ⟨accessors, later⟩ hlater
      exact hlater.1
    · exact Cursor.Reaches.refl c

theorem Handles.variableRound (hg : g.Handles start budget) (h : HasRoom start budget 1 c) (scope : Scope)
    (attributes : List Attribute) (state : List Node × Nat) :
    (g.variableRound scope attributes state c).Answers start (Round.Advances c) := by
  obtain ⟨nodes, first⟩ := state
  rw [Grammar.variableRound]
  apply (answers_variablePattern h.reached).bind
  rintro ⟨name, c₁⟩ hname
  refine (Cursor.answers_skipDeclaredType (h.reached.trans hname.1)).bind fun c₂ htype => ?_
  have hpasses₂ := hname.trans_reaches htype
  apply (hg.variableValue (h.reaches hpasses₂.1)).bind
  rintro ⟨children, c₃⟩ hvalue
  have hpasses₃ := hpasses₂.trans_reaches hvalue
  dsimp only
  split
  · exact hpasses₃.trans_reaches (.advance c₃)
  · exact hpasses₃.1

theorem Handles.bindings (hg : g.Handles start budget) (h : HasRoom start budget 1 c) (scope : Scope)
    (attributes : List Attribute) :
    (g.bindings scope attributes c).Answers start fun r => c.Reaches r.2 := by
  refine (answers_repeatRounds (fun state _ hmiddle => hg.variableRound
    (h.reaches ((Cursor.Reaches.advance c).trans hmiddle)) scope attributes state) ([], c.here)).mono ?_
  exact fun _ hlater => (Cursor.Reaches.advance c).trans hlater

/-! ### Functions -/

theorem Handles.defaultValue (hg : g.Handles start budget) (h : HasRoom start budget 1 c) :
    (g.defaultValue c).Answers start fun r => c.Reaches r.2 := by
  rw [Grammar.defaultValue]
  split
  · apply (hg.expression (h.reaches (.advance c)) true).bind
    rintro ⟨e, later⟩ hlater
    exact (Cursor.Reaches.advance c).trans hlater
  · exact Cursor.Reaches.refl c

theorem Handles.parameterRound (hg : g.Handles start budget) (h : HasRoom start budget 1 c)
    (hopener : opener ∈ start.ahead) (nodes : List Node) :
    (g.parameterRound opener nodes c).Answers start (Round.Advances c) := by
  rw [Grammar.parameterRound]
  split
  · exact Outcome.answers_unclosed hopener
  · rename_i lexeme hpeek
    have hpass := Cursor.Passes.advance hpeek
    split
    · exact hpass.1
    · split
      · exact hpass
      · split
        · exact Outcome.answers_unexpected (h.reached.mem_of_peek? hpeek)
        · dsimp only
          generalize hwords : c.advanceBy _ = c₁
          have hreaches₁ : c.Reaches c₁ := ⟨_, hwords.symm⟩
          refine (Cursor.answers_skipDeclaredType (h.reached.trans hreaches₁)).bind fun c₂ htype => ?_
          have hreaches₂ := hreaches₁.trans htype
          apply (hg.defaultValue (h.reaches hreaches₂)).bind
          rintro ⟨children, c₃⟩ hvalue
          dsimp only
          cases hstalled : c.hasStalled c₃ with
          | true => exact hpass
          | false => exact (hreaches₂.trans hvalue).passes hstalled

theorem Handles.parameters (hg : g.Handles start budget) (h : HasRoom start budget 1 c) :
    (g.parameters c).Answers start fun r => c.Reaches r.2 := by
  rw [Grammar.parameters]
  split
  · rename_i opener hpeek
    split
    · refine (answers_repeatRounds (fun nodes _ hmiddle => hg.parameterRound
        (h.reaches ((Cursor.Reaches.advance c).trans hmiddle)) (h.reached.mem_of_peek? hpeek) nodes)
        []).mono ?_
      exact fun _ hlater => (Cursor.Reaches.advance c).trans hlater
    · exact Cursor.Reaches.refl c
  · exact Cursor.Reaches.refl c

theorem answers_functionName (h : start.Reaches c) (keyword : Lexeme) :
    (functionName keyword c).Answers start fun r => c.Reaches r.2 := by
  rw [functionName]
  split
  · split
    · exact Cursor.Reaches.advance c
    · exact Outcome.answers_expected h _
  · exact Cursor.reaches_skipPostfixOperator c

/-- The requirements behind `where`, up to the opening brace. -/
theorem answers_whereToBrace {middle : Cursor} (h : start.Reaches c) (hmiddle : c.Reaches middle) :
    Outcome.Answers start c.Reaches (if middle.atKeyword "where" then middle.skipToBrace else .ok middle) := by
  split
  · exact (Cursor.answers_skipToBrace (h.trans hmiddle)).mono fun _ => hmiddle.trans
  · exact hmiddle

theorem answers_skipFunctionType (h : start.Reaches c) : (skipFunctionType c).Answers start c.Reaches := by
  rw [skipFunctionType]
  dsimp only
  generalize heffects : c.advanceBy _ = c₁
  have hreaches₁ : c.Reaches c₁ := ⟨_, heffects.symm⟩
  split
  · have hreaches₂ := hreaches₁.trans (.advance c₁)
    apply (Cursor.answers_skipType (h.trans hreaches₂)).bind
    intro c₃ htype
    exact answers_whereToBrace h (hreaches₂.trans htype)
  · exact answers_whereToBrace h hreaches₁

theorem Handles.functionBody (hg : g.Handles start budget) (h : HasRoom start budget more c) :
    (g.functionBody c).Answers start fun r => c.Reaches r.2 := by
  rw [Grammar.functionBody]
  split
  · apply (hg.block h).bind
    rintro ⟨body, later⟩ hlater
    exact hlater.1
  · exact Cursor.Reaches.refl c

theorem Handles.function (hg : g.Handles start budget) (h : HasRoom start budget 1 c) (scope : Scope)
    (attributes : List Attribute) (keyword : Lexeme) :
    (g.function scope attributes keyword c).Answers start fun r => c.Reaches r.2 := by
  rw [Grammar.function]
  apply (answers_functionName (h.reached.trans (.advance c)) keyword).bind
  rintro ⟨name, c₁⟩ hname
  have hreaches₁ := (Cursor.Reaches.advance c).trans hname
  refine (Cursor.answers_skipGenericParameters (h.reached.trans hreaches₁)).bind fun c₂ hgeneric => ?_
  have hreaches₂ := hreaches₁.trans hgeneric
  apply (hg.parameters (h.reaches hreaches₂)).bind
  rintro ⟨parameters, c₃⟩ hparameters
  have hreaches₃ := hreaches₂.trans hparameters
  refine (answers_skipFunctionType (h.reached.trans hreaches₃)).bind fun c₄ htype => ?_
  have hreaches₄ := hreaches₃.trans htype
  apply (hg.functionBody (h.reaches hreaches₄)).bind
  rintro ⟨body, c₅⟩ hbody
  exact hreaches₄.trans hbody

/-! ### Types -/

theorem answers_inheritanceRound (h : start.Reaches c) (state : Unit) :
    (inheritanceRound state c).Answers start (Round.Advances c) := by
  rw [inheritanceRound]
  apply (Cursor.answers_skipType h).bind
  intro later hlater
  split
  · rename_i hcomma
    obtain ⟨x, hpeek⟩ := Cursor.exists_peek?_of_next hcomma
    exact .of_reaches hlater (.advance hpeek)
  · exact hlater

theorem answers_skipTypeHead (h : start.Reaches c) : (skipTypeHead c).Answers start c.Reaches := by
  rw [skipTypeHead]
  refine (Cursor.answers_skipGenericParameters h).bind fun c₁ hgeneric => ?_
  split
  · have hreaches₂ := hgeneric.trans (.advance c₁)
    refine (answers_repeatRounds (fun state _ hmiddle => answers_inheritanceRound
      (h.trans (hreaches₂.trans hmiddle)) state) ()).bind ?_
    rintro ⟨_, c₃⟩ htypes
    exact answers_whereToBrace h (hreaches₂.trans htypes)
  · exact answers_whereToBrace h hgeneric

/-- A type begins with its keyword and has a brace before its members. -/
theorem Handles.typeDeclaration (hg : g.Handles start budget) (h : HasRoom start budget more c)
    (attributes : List Attribute) (keyword : Lexeme) :
    (g.typeDeclaration attributes keyword c).Answers start fun r => c.Reaches r.2 := by
  rw [Grammar.typeDeclaration]
  dsimp only
  generalize hname : c.advance.advanceBy _ = c₁
  have hreaches₁ : c.Reaches c₁ := (Cursor.Reaches.advance c).trans ⟨_, hname.symm⟩
  split
  · exact Outcome.answers_expected (h.reached.trans hreaches₁) _
  · refine (answers_skipTypeHead (h.reached.trans hreaches₁)).bind fun c₂ hhead => ?_
    have h₂ := h.reaches (hreaches₁.trans hhead)
    apply (Cursor.answers_expectSymbol h₂.reached _ _).bind
    rintro ⟨opener, c₃⟩ ⟨hpasses, hopener⟩
    have h₃ := h₂.passes hpasses
    apply (hg.statements h₃ _ _).bind
    rintro ⟨members, c₄⟩ hmembers
    apply (Cursor.answers_expectCloser (h₃.reaches hmembers).reached _ hopener).bind
    rintro ⟨closer, c₅⟩ hcloser
    exact (hreaches₁.trans hhead).trans (hpasses.1.trans (hmembers.trans hcloser.1))

end SourceLint.Grammar
