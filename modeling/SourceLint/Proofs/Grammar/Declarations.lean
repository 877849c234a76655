import SourceLint.Grammar.Declaration
import SourceLint.Proofs.Grammar.Expressions

/-!
# Declarations read arranged nodes

A declaration begins at its keyword, behind its attributes and modifiers, and takes over the nodes of its
body. Of several variables in one declaration the first begins at the keyword and each other one behind
a comma, so the state of that repetition remembers the cursor where the next variable begins.
-/

namespace SourceLint.Grammar

variable {g : Grammar} {c : Cursor}

theorem meets_modifierRound (attributes : List Attribute) (c : Cursor) :
    (modifierRound attributes c).Meets fun r => c.Reaches r.2 := by
  rw [modifierRound]
  split
  · exact Cursor.Reaches.refl c
  · apply (Cursor.meets_skipAttachedGroup c.advance).bind
    intro later hlater
    exact (Cursor.Reaches.advance c).trans hlater

theorem meets_modifiers (c : Cursor) : (modifiers c).Meets fun r => c.Reaches r.2 :=
  Cursor.meets_repeatRounds_reaches meets_modifierRound [] c

theorem Sound.block (hg : g.Sound) (hc : c.Valid) :
    (g.block c).Meets fun r => Reads c [r.1] r.2 ∧ c.Passes r.2 := by
  rw [Grammar.block]
  apply (Cursor.meets_expectSymbol c _ _).bind
  rintro ⟨opener, c₁⟩ ⟨hopener, hstart, -⟩
  have hc₁ := hopener.1.valid hc
  apply (hg.statements hc₁ _ _).bind
  rintro ⟨statements, c₂⟩ hstatements
  apply (Cursor.meets_expectCloser c₂ _ _).bind
  rintro ⟨closer, c₃⟩ ⟨hcloser, -, hstop⟩
  have hinside := hstatements.trans_reaches hc₁ hcloser.1
  have hpasses := hopener.trans_reaches hinside.reaches
  refine ⟨Reads.node hc hpasses ?_ ⟨nofun, nofun⟩ (hinside.of_reaches hc hopener.1), hpasses⟩
  rw [hstart, hstop]

/-! ### Variables -/

theorem meets_variablePattern (c : Cursor) :
    (variablePattern c).Meets fun r => c.Passes r.2 := by
  rw [variablePattern]
  split
  · exact Outcome.meets_expected _ _
  · rename_i lexeme hpeek
    split
    · exact (Cursor.meets_skipGroup_passes hpeek).bind fun _ h => h
    · split
      · exact Cursor.Passes.advance hpeek
      · exact Outcome.meets_expected _ _

theorem Sound.variableValue (hg : g.Sound) (hc : c.Valid) :
    (g.variableValue c).Meets fun r => Reads c r.1 r.2 := by
  rw [Grammar.variableValue]
  split
  · apply (hg.expression hc.advance true).bind
    rintro ⟨e, later⟩ he
    dsimp only
    split
    · exact he.of_reaches hc (.advance c)
    · exact Outcome.meets_expected _ _
  · split
    · apply (hg.block hc).bind
      rintro ⟨accessors, later⟩ ⟨haccessors, -⟩
      exact haccessors
    · exact Reads.skip (.refl c)

/-- The next variable of a declaration begins at a cursor behind the variables before it. -/
def VariablesRead (c : Cursor) (state : List Node × Nat) (later : Cursor) : Prop :=
  ∃ first, Reads c state.1 first ∧ state.2 = first.here ∧ first.Reaches later

theorem Sound.variableRound (hg : g.Sound) (hc : c.Valid) (scope : Scope)
    (attributes : List Attribute) {state : List Node × Nat} {middle : Cursor}
    (h : VariablesRead c state middle) :
    (g.variableRound scope attributes state middle).Meets
      (Round.Keeps (VariablesRead c) fun nodes later => Reads c nodes later) := by
  obtain ⟨nodes, start⟩ := state
  obtain ⟨first, hnodes, rfl, hfirst⟩ := h
  have hvalid := hnodes.reaches.valid hc
  rw [Grammar.variableRound]
  apply (meets_variablePattern middle).bind
  rintro ⟨name, c₁⟩ hname
  refine (Cursor.meets_skipDeclaredType c₁).bind fun c₂ htype => ?_
  have hc₂ := hfirst.trans (hname.1.trans htype)
  apply (hg.variableValue (hc₂.valid hvalid)).bind
  rintro ⟨children, c₃⟩ hchildren
  have hpasses : first.Passes c₃ :=
    .of_reaches hfirst (hname.trans_reaches (htype.trans hchildren.reaches))
  have hall : ∀ node : Node, node.span = .ofBounds first.here c₃.lastStop →
      node.kind = scope.variableKind → node.children = children → Reads c (nodes ++ [node]) c₃ := by
    rintro node hspan hkind rfl
    have hroot : node.kind ≠ .closure ∧ node.kind ≠ .forEach := by
      rw [hkind]
      cases scope <;> exact ⟨nofun, nofun⟩
    exact hnodes.append hc (Reads.node hvalid hpasses hspan ⟨fun h => absurd h hroot.1, fun h => absurd h hroot.2⟩
      (hchildren.of_reaches hvalid hc₂))
  dsimp only
  split
  · refine ⟨c₃.advance, ?_, rfl, .refl _⟩
    exact (hall _ rfl rfl rfl).trans_reaches hc (.advance c₃)
  · exact hall _ rfl rfl rfl

theorem Sound.bindings (hg : g.Sound) (hc : c.Valid) (scope : Scope)
    (attributes : List Attribute) :
    (g.bindings scope attributes c).Meets fun r => Reads c r.1 r.2 :=
  meets_repeatRounds (fun _ _ h => hg.variableRound hc scope attributes h)
    ⟨c, Reads.skip (.refl c), rfl, .advance c⟩

/-! ### Functions -/

theorem Sound.defaultValue (hg : g.Sound) (hc : c.Valid) :
    (g.defaultValue c).Meets fun r => Reads c r.1 r.2 := by
  rw [Grammar.defaultValue]
  split
  · apply (hg.expression hc.advance true).bind
    rintro ⟨e, later⟩ he
    exact he.of_reaches hc (.advance c)
  · exact Reads.skip (.refl c)

theorem Sound.parameterRound (hg : g.Sound) (hc : c.Valid) (opener : Lexeme) {nodes : List Node}
    {middle : Cursor} (h : Reads c nodes middle) :
    (g.parameterRound opener nodes middle).Meets
      (Round.Keeps (fun nodes later => Reads c nodes later) fun nodes later => Reads c nodes later) := by
  have hmiddle := h.reaches.valid hc
  rw [Grammar.parameterRound]
  split
  · exact Outcome.meets_unclosed _
  · rename_i lexeme hpeek
    split
    · exact h.trans_reaches hc (.advance middle)
    · split
      · exact h.trans_reaches hc (.advance middle)
      · split
        · exact Outcome.meets_unexpected _
        · dsimp only
          generalize hwords : middle.advanceBy _ = afterWords
          have hafterWords : middle.Reaches afterWords := ⟨_, hwords.symm⟩
          apply (Cursor.meets_skipDeclaredType afterWords).bind
          intro afterType htype
          have hafterType := hafterWords.trans htype
          apply (hg.defaultValue (hafterType.valid hmiddle)).bind
          rintro ⟨children, later⟩ hchildren
          have hinside := hchildren.of_reaches hmiddle hafterType
          dsimp only
          cases hstalled : middle.hasStalled later with
          | true => exact h.trans_reaches hc (.advance middle)
          | false =>
              have hpasses := hinside.reaches.passes hstalled
              refine h.append hc (Reads.node hmiddle hpasses ?_ ⟨nofun, nofun⟩ hinside)
              rw [Cursor.here_of_peek? hpeek]

theorem Sound.parameters (hg : g.Sound) (hc : c.Valid) :
    (g.parameters c).Meets fun r => Reads c r.1 r.2 := by
  rw [Grammar.parameters]
  split
  · split
    · exact meets_repeatRounds (fun _ _ h => hg.parameterRound hc _ h) (Reads.skip (.advance c))
    · exact Reads.skip (.refl c)
  · exact Reads.skip (.refl c)

theorem meets_functionName (keyword : Lexeme) (c : Cursor) :
    (functionName keyword c).Meets fun r => c.Reaches r.2 := by
  rw [functionName]
  split
  · split
    · exact Cursor.Reaches.advance c
    · exact Outcome.meets_expected _ _
  · exact Cursor.reaches_skipPostfixOperator c

/-- The requirements behind `where`, up to the opening brace. -/
theorem meets_whereToBrace {middle : Cursor} (h : c.Reaches middle) :
    Outcome.Meets c.Reaches (if middle.atKeyword "where" then middle.skipToBrace else .ok middle) := by
  split
  · exact (Cursor.meets_skipToBrace middle).mono fun _ => h.trans
  · exact h

theorem meets_skipFunctionType (c : Cursor) : (skipFunctionType c).Meets c.Reaches := by
  rw [skipFunctionType]
  dsimp only
  generalize heffects : c.advanceBy _ = afterEffects
  have hafterEffects : c.Reaches afterEffects := ⟨_, heffects.symm⟩
  split
  · apply (Cursor.meets_skipType _).bind
    intro afterType htype
    exact meets_whereToBrace (hafterEffects.trans ((Cursor.Reaches.advance _).trans htype))
  · exact meets_whereToBrace hafterEffects

/-- The body of a function is a block, whose nodes become nodes of the function. -/
theorem Sound.functionBody (hg : g.Sound) (hc : c.Valid) :
    (g.functionBody c).Meets fun r => Reads c ((r.1.map Node.children).getD []) r.2 := by
  rw [Grammar.functionBody]
  split
  · apply (hg.block hc).bind
    rintro ⟨body, later⟩ ⟨hbody, -⟩
    obtain ⟨hbegins, hends, hinside⟩ := Node.arranged_singleton.1 hbody.arranged
    have hbelow : ∀ node ∈ Node.listingAll body.children, node ∈ Node.listingAll [body] := by
      intro node hnode
      rw [Node.listingAll_cons, Node.listing_eq]
      exact List.mem_append_left _ (List.mem_cons_of_mem _ hnode)
    exact ⟨hbody.reaches, hinside.mono hbegins hends, fun node hnode => hbody.ends node (hbelow node hnode),
      fun node hnode => hbody.isRead node (hbelow node hnode)⟩
  · exact Reads.skip (.refl c)

theorem Sound.function (hg : g.Sound) (hc : c.Valid) (scope : Scope) (attributes : List Attribute)
    {keyword : Lexeme} (hpeek : c.peek? = some keyword) :
    (g.function scope attributes keyword c).Meets fun r => Reads c r.1 r.2 := by
  rw [Grammar.function]
  apply (meets_functionName keyword c.advance).bind
  rintro ⟨name, c₁⟩ hname
  refine (Cursor.meets_skipGenericParameters c₁).bind fun c₂ hgeneric => ?_
  have hpasses := (Cursor.Passes.advance hpeek).trans_reaches (hname.trans hgeneric)
  apply (hg.parameters (hpasses.1.valid hc)).bind
  rintro ⟨parameters, c₃⟩ hparameters
  have hinside₃ := hparameters.of_reaches hc hpasses.1
  refine (meets_skipFunctionType c₃).bind fun c₄ htype => ?_
  have hinside₄ := hinside₃.trans_reaches hc htype
  apply (hg.functionBody (hinside₄.reaches.valid hc)).bind
  rintro ⟨body, c₅⟩ hbody
  have hkind : scope.functionKind ≠ .closure ∧ scope.functionKind ≠ .forEach := by
    cases scope <;> exact ⟨nofun, nofun⟩
  refine Reads.node hc ?_ ?_ ⟨fun h => absurd h hkind.1, fun h => absurd h hkind.2⟩ (hinside₄.append hc hbody)
  · exact hpasses.trans_reaches (hparameters.reaches.trans (htype.trans hbody.reaches))
  · rw [Cursor.here_of_peek? hpeek]

/-! ### Types -/

theorem meets_inheritanceRound (state : Unit) (c : Cursor) :
    (inheritanceRound state c).Meets fun r => c.Reaches r.2 := by
  rw [inheritanceRound]
  apply (Cursor.meets_skipType c).bind
  intro later hlater
  split
  · exact hlater.trans (.advance later)
  · exact hlater

theorem meets_skipTypeHead (c : Cursor) : (skipTypeHead c).Meets c.Reaches := by
  rw [skipTypeHead]
  refine (Cursor.meets_skipGenericParameters c).bind fun c₁ hgeneric => ?_
  split
  · apply (Cursor.meets_repeatRounds_reaches meets_inheritanceRound () c₁.advance).bind
    rintro ⟨_, c₂⟩ htypes
    exact meets_whereToBrace (hgeneric.trans ((Cursor.Reaches.advance c₁).trans htypes))
  · exact meets_whereToBrace hgeneric

theorem typeNameLength_of_peek? {x : Lexeme} (hpeek : c.peek? = some x) :
    typeNameLength c.ahead =
      if x.isIdentifier then
        if c.advance.atSymbol "." then typeNameLength c.advance.advance.ahead + 2 else 1
      else 0 := by
  obtain ⟨ahead, hahead⟩ := Cursor.peek?_eq_some_iff.1 hpeek
  rw [hahead, Cursor.advance_of_cons hahead, typeNameLength.eq_def]
  cases ahead with
  | nil => rfl
  | cons point others => rfl

theorem typeKind_ne (keyword : String) : typeKind keyword ≠ .closure ∧ typeKind keyword ≠ .forEach := by
  unfold typeKind
  split <;> exact ⟨nofun, nofun⟩

theorem Sound.typeDeclaration (hg : g.Sound) (hc : c.Valid) (attributes : List Attribute)
    {keyword : Lexeme} (hpeek : c.peek? = some keyword) :
    (g.typeDeclaration attributes keyword c).Meets fun r => Reads c r.1 r.2 := by
  rw [Grammar.typeDeclaration]
  dsimp only
  generalize hname : c.advance.advanceBy _ = c₁
  have hafterName : c.advance.Reaches c₁ := ⟨_, hname.symm⟩
  split
  · exact Outcome.meets_expected _ _
  · refine (meets_skipTypeHead c₁).bind fun c₂ hhead => ?_
    apply (Cursor.meets_expectSymbol c₂ _ _).bind
    rintro ⟨opener, c₃⟩ ⟨hopener, -, -⟩
    have hpasses := (Cursor.Passes.advance hpeek).trans_reaches
      (hafterName.trans (hhead.trans hopener.1))
    apply (hg.statements (hpasses.1.valid hc) _ _).bind
    rintro ⟨members, c₄⟩ hmembers
    apply (Cursor.meets_expectCloser c₄ _ _).bind
    rintro ⟨closer, c₅⟩ ⟨hcloser, -, hstop⟩
    have hinside := (hmembers.of_reaches hc hpasses.1).trans_reaches hc hcloser.1
    refine Reads.node hc (hpasses.trans_reaches (hmembers.reaches.trans hcloser.1)) ?_
      ⟨fun h => absurd h (typeKind_ne _).1, fun h => absurd h (typeKind_ne _).2⟩ hinside
    rw [hstop, Cursor.here_of_peek? hpeek]

end SourceLint.Grammar
