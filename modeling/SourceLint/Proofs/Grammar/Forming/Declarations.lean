import SourceLint.Proofs.Grammar.Declarations
import SourceLint.Proofs.Grammar.Forming.Expressions

/-!
# Nodes of declarations are well formed

A declaration has the attributes and modifiers that stand before it, so what is known of their spans comes with
them. A function takes its body from a block, together with the nodes in it.
-/

namespace SourceLint.Grammar

variable {g : Grammar} {start c middle : Cursor} {attributes : List Attribute} {keyword : Lexeme}

/-! ### Modifiers -/

/-- The attributes begin and end with lexemes of the text. -/
abbrev FramesAttributes (start : Cursor) (attributes : List Attribute) : Prop :=
  ∀ a ∈ attributes, start.Frames a.span

theorem meets_modifierRound_frames (hstart : start.Valid) (hc : start.Reaches c)
    (h : FramesAttributes start attributes) :
    (modifierRound attributes c).Meets
      (Round.Keeps (fun attributes later => start.Reaches later ∧ FramesAttributes start attributes)
        fun attributes _ => FramesAttributes start attributes) := by
  cases hpeek : c.peek? with
  | none =>
      rw [modifierRound, modifierKind?, hpeek]
      exact h
  | some x =>
      rw [modifierRound]
      split
      · exact h
      · rename_i kind _
        apply (Cursor.meets_skipAttachedGroup c.advance).bind
        intro later hlater
        have hpasses := (Cursor.Passes.advance hpeek).trans_reaches hlater
        refine ⟨hc.trans hpasses.1, fun a ha => ?_⟩
        rcases List.mem_append.1 ha with ha | ha
        · exact h a ha
        · obtain ⟨kind, -, rfl⟩ := List.mem_map.1 ha
          exact (hpasses.holds (hc.valid hstart)).frames hc

theorem meets_modifiers_frames (hstart : start.Valid) (hc : start.Reaches c) :
    (modifiers c).Meets fun r => FramesAttributes start r.1 := by
  have hround : ∀ attributes middle, start.Reaches middle ∧ FramesAttributes start attributes →
      (modifierRound attributes middle).Meets
        (Round.Keeps (fun attributes later => start.Reaches later ∧ FramesAttributes start attributes)
          fun attributes _ => FramesAttributes start attributes) :=
    fun _ _ h => meets_modifierRound_frames hstart h.1 h.2
  exact meets_repeatRounds hround ⟨hc, List.forall_mem_nil _⟩

/-! ### Blocks -/

/-- A block, with its body between braces. -/
theorem Forming.block (hg : g.Forming start) (hc : start.Reaches c) :
    (g.block c).Meets fun r => Forms start (· == .brace) c [r.1] r.2 ∧ c.Passes r.2 ∧
      r.1.kind = .brace ∧ ∀ span, r.1.body = some span → c.Encloses r.2 span := by
  rw [Grammar.block]
  apply (Cursor.meets_expectSymbol_next c _ _).bind
  rintro ⟨opener, c₁⟩ ⟨hpeek, hopener, rfl⟩
  apply (hg.statements (hc.trans (.advance c)) _ _).bind
  rintro ⟨statements, c₂⟩ hstatements
  apply (Cursor.meets_expectCloser_next c₂ _ _).bind
  rintro ⟨closer, c₃⟩ ⟨hpeek', hcloser, rfl⟩
  have hends := endsWith_advance hstatements.reaches hpeek' hcloser
  have hpasses := (Cursor.Passes.advance hpeek).trans_reaches (hstatements.reaches.trans (.advance c₂))
  have hgroup := Cursor.encloses_group (hc.valid hg.valid) hpeek hends.taken
    (Lexeme.closes_curly hopener hcloser)
  have hbody : ∀ span, some (Span.ofBounds opener.stop closer.start) = some span →
      c.Encloses c₂.advance span := fun _ hsome => Option.some.inj hsome ▸ hgroup
  refine ⟨Forms.unmarked hg.valid hc hpasses rfl
    ⟨?_, .anonymous rfl rfl, hbody, List.forall_mem_nil _⟩ rfl ?_, hpasses, rfl, hbody⟩
  · rw [hends.last, Cursor.here_of_peek? hpeek]
  · exact (hstatements.of_reaches (.advance c)).trans_reaches (.advance c₂)

/-! ### Variables -/

/-- The kinds of what a variable may have for its value. -/
def isValue (kind : NodeKind) : Bool := kind.isExpression || kind == .brace

theorem isValue_of_isExpression (kind : NodeKind) (h : kind.isExpression = true) : isValue kind = true :=
  Bool.or_eq_true_iff.2 (.inl h)

theorem isValue_of_brace (kind : NodeKind) (h : (kind == .brace) = true) : isValue kind = true :=
  Bool.or_eq_true_iff.2 (.inr h)

theorem meets_variablePattern_takes (c : Cursor) :
    (variablePattern c).Meets fun r => c.Passes r.2 ∧ ∀ x, r.1 = some x → c.Takes r.2 x := by
  rw [variablePattern]
  split
  · exact Outcome.meets_expected _ _
  · rename_i lexeme hpeek
    split
    · exact (Cursor.meets_skipGroup_passes hpeek).bind fun _ h => ⟨h, forall_of_eq_none rfl⟩
    · split
      · refine ⟨Cursor.Passes.advance hpeek, ?_⟩
        rintro x ⟨⟩
        exact .next hpeek (.refl _)
      · exact Outcome.meets_expected _ _

theorem Forming.variableValue (hg : g.Forming start) (hc : start.Reaches c) :
    (g.variableValue c).Meets fun r => Forms start isValue c r.1 r.2 := by
  rw [Grammar.variableValue]
  split
  · apply (hg.expression (hc.trans (.advance c)) true).bind
    rintro ⟨e, later⟩ ⟨he, -⟩
    dsimp only
    split
    · exact (he.of_reaches (.advance c)).mono isValue_of_isExpression
    · exact Outcome.meets_expected _ _
  · split
    · apply (hg.block hc).bind
      rintro ⟨accessors, later⟩ ⟨haccessors, -⟩
      exact haccessors.mono isValue_of_brace
    · exact Forms.skip (.refl c)

/-- The next variable of a declaration begins at a cursor behind the variables before it. -/
def FormsVariables (start : Cursor) (scope : Scope) (c : Cursor) (state : List Node × Nat) (later : Cursor) :
    Prop :=
  ∃ first, Forms start scope.admits c state.1 first ∧ state.2 = first.here ∧ first.Reaches later

theorem admits_variableKind (scope : Scope) : scope.admits scope.variableKind = true := by
  cases scope <;> rfl

theorem admits_functionKind (scope : Scope) : scope.admits scope.functionKind = true := by
  cases scope <;> rfl

theorem mayHold_variableKind (scope : Scope) : scope.variableKind.mayHold = isValue := by
  cases scope <;> rfl

theorem joinsName_variableKind (scope : Scope) : scope.variableKind.joinsName = false := by
  cases scope <;> rfl

theorem Forming.variableRound (hg : g.Forming start) (hc : start.Reaches c) (scope : Scope)
    (hattributes : FramesAttributes start attributes) {state : List Node × Nat}
    (h : FormsVariables start scope c state middle) :
    (g.variableRound scope attributes state middle).Meets
      (Round.Keeps (FormsVariables start scope c) (Forms start scope.admits c)) := by
  obtain ⟨nodes, offset⟩ := state
  obtain ⟨first, hnodes, rfl, hfirst⟩ := h
  have hreached := hc.trans hnodes.reaches
  rw [Grammar.variableRound]
  apply (meets_variablePattern_takes middle).bind
  rintro ⟨name, c₁⟩ ⟨hpattern, hname⟩
  refine (Cursor.meets_skipDeclaredType c₁).bind fun c₂ htype => ?_
  have hc₂ := hfirst.trans (hpattern.1.trans htype)
  apply (hg.variableValue (hreached.trans hc₂)).bind
  rintro ⟨children, c₃⟩ hchildren
  have hpasses : first.Passes c₃ :=
    .of_reaches hfirst (hpattern.trans_reaches (htype.trans hchildren.reaches))
  have htaken : ∀ x, name = some x → first.Takes c₃ x := fun x hx =>
    ((hname x hx).of_reaches hfirst).trans_reaches (htype.trans hchildren.reaches)
  have hinside : Forms start scope.variableKind.mayHold first children c₃ := by
    rw [mayHold_variableKind]
    exact hchildren.of_reaches hc₂
  have hlies : Node.LiesBetween first c₃
      { kind := scope.variableKind, span := .ofBounds first.here c₃.lastStop
        name := name.map Lexeme.text, nameSpan := name.map Lexeme.span, attributes, children } :=
    ⟨rfl, Node.namedBetween_of_option htaken (joinsName_variableKind scope) rfl rfl, forall_of_eq_none rfl,
      List.forall_mem_nil _⟩
  have hall := hnodes.append (Forms.node hg.valid hreached hpasses (admits_variableKind scope) hlies hattributes
    hinside)
  dsimp only
  split
  · exact ⟨c₃.advance, hall.trans_reaches (.advance c₃), rfl, .refl _⟩
  · exact hall

theorem Forming.bindings (hg : g.Forming start) (hc : start.Reaches c) (scope : Scope)
    (hattributes : FramesAttributes start attributes) :
    (g.bindings scope attributes c).Meets fun r => Forms start scope.admits c r.1 r.2 :=
  meets_repeatRounds (fun _ _ h => hg.variableRound hc scope hattributes h)
    (⟨c, Forms.skip (.refl c), rfl, .advance c⟩ : FormsVariables start scope c ([], c.here) c.advance)

/-! ### Functions -/

theorem Forming.defaultValue (hg : g.Forming start) (hc : start.Reaches c) :
    (g.defaultValue c).Meets fun r => FormsExpression start c r.1 r.2 := by
  rw [Grammar.defaultValue]
  split
  · apply (hg.expression (hc.trans (.advance c)) true).bind
    rintro ⟨e, later⟩ ⟨he, -⟩
    exact he.of_reaches (.advance c)
  · exact Forms.skip (.refl c)

/-- The lexeme is one of the next `n` ones. -/
theorem takes_of_mem_take {x : Lexeme} {n : Nat} (hx : x ∈ c.ahead.take n) : c.Takes (c.advanceBy n) x := by
  obtain ⟨i, hi, rfl⟩ := List.mem_iff_getElem.1 hx
  rw [List.length_take] at hi
  have hpeek : (c.advanceBy i).peek? = some (c.ahead.take n)[i] := by
    rw [Cursor.peek?, Cursor.ahead_advanceBy, List.head?_drop, List.getElem?_eq_getElem (by omega),
      List.getElem_take]
  obtain ⟨m, rfl⟩ : ∃ m, n = i + 1 + m := ⟨n - (i + 1), by omega⟩
  refine ⟨c.advanceBy i, .advanceBy c i, hpeek, m, ?_⟩
  rw [Cursor.advanceBy_add, Cursor.advanceBy_add]
  rfl

/-- The parameters of a function. -/
abbrev FormsParameters (start c : Cursor) (nodes : List Node) (later : Cursor) : Prop :=
  Forms start (· == .varParameter) c nodes later

theorem Forming.parameterRound (hg : g.Forming start) (hc : start.Reaches c) (opener : Lexeme)
    {nodes : List Node} (h : FormsParameters start c nodes middle) :
    (g.parameterRound opener nodes middle).Meets
      (Round.Keeps (FormsParameters start c) (FormsParameters start c)) := by
  have hmiddle := hc.trans h.reaches
  have hskip := h.trans_reaches (.advance middle)
  rw [Grammar.parameterRound]
  split
  · exact Outcome.meets_unclosed _
  · rename_i lexeme hpeek
    split
    · exact hskip
    · split
      · exact hskip
      · split
        · exact Outcome.meets_unexpected _
        · dsimp only
          generalize hwords : middle.ahead.takeWhile Lexeme.isWord = words
          have htaken : ∀ x, (words.filter fun l => l.text != "_").getLast? = some x →
              middle.Takes (middle.advanceBy words.length) x := by
            intro x hx
            have hmem := (List.mem_filter.1 (List.mem_of_getLast? hx)).1
            rw [← hwords] at hmem ⊢
            rw [List.prefix_iff_eq_take.1 (List.takeWhile_prefix Lexeme.isWord)] at hmem
            exact takes_of_mem_take hmem
          generalize (words.filter fun l => l.text != "_").getLast? = name at htaken
          apply (Cursor.meets_skipDeclaredType (middle.advanceBy words.length)).bind
          intro afterType htype
          have hafterType := (Cursor.Reaches.advanceBy middle words.length).trans htype
          apply (hg.defaultValue (hmiddle.trans hafterType)).bind
          rintro ⟨children, later⟩ hchildren
          have hinside := hchildren.of_reaches hafterType
          dsimp only
          cases hstalled : middle.hasStalled later with
          | true => exact hskip
          | false =>
              have hpasses := hinside.reaches.passes hstalled
              refine h.append (Forms.unmarked hg.valid hmiddle hpasses rfl
                ⟨?_, ?_, forall_of_eq_none rfl, List.forall_mem_nil _⟩ rfl hinside)
              · rw [Cursor.here_of_peek? hpeek]
              · exact Node.namedBetween_of_option
                  (fun x hx => (htaken x hx).trans_reaches (htype.trans hchildren.reaches)) rfl rfl rfl

theorem Forming.parameters (hg : g.Forming start) (hc : start.Reaches c) :
    (g.parameters c).Meets fun r => FormsParameters start c r.1 r.2 := by
  rw [Grammar.parameters]
  split
  · split
    · exact meets_repeatRounds (fun _ _ h => hg.parameterRound hc _ h) (Forms.skip (.advance c))
    · exact Forms.skip (.refl c)
  · exact Forms.skip (.refl c)

/-- The name of a function is the lexeme behind its keyword, or the keyword. -/
theorem meets_functionName_takes (hpeek : c.peek? = some keyword) :
    (functionName keyword c.advance).Meets fun r => c.advance.Reaches r.2 ∧ c.Takes r.2 r.1 := by
  rw [functionName]
  split
  · split
    · rename_i name hname
      exact ⟨.advance c.advance, (Cursor.Takes.next hname (.refl _)).of_reaches (.advance c)⟩
    · exact Outcome.meets_expected _ _
  · have hreaches := Cursor.reaches_skipPostfixOperator c.advance
    exact ⟨hreaches, .next hpeek hreaches⟩

/-- The nodes of the body of a function may stand below the function. -/
theorem Forming.functionBody (hg : g.Forming start) (hc : start.Reaches c) :
    (g.functionBody c).Meets fun r =>
      Forms start Scope.functionBody.admits c ((r.1.map Node.children).getD []) r.2 ∧
        ∀ span, r.1.bind Node.body = some span → c.Encloses r.2 span := by
  rw [Grammar.functionBody]
  split
  · apply (hg.block hc).bind
    rintro ⟨body, later⟩ ⟨hbody, -, hkind, hencloses⟩
    have hbelow := hbody.of_single.2
    rw [hkind] at hbelow
    exact ⟨hbelow, hencloses⟩
  · exact ⟨Forms.skip (.refl c), forall_of_eq_none rfl⟩

theorem mayHold_functionKind (scope : Scope) (kind : NodeKind) :
    scope.functionKind.mayHold kind = (kind == .varParameter || Scope.functionBody.admits kind) := by
  cases scope <;> rfl

theorem joinsName_functionKind (scope : Scope) : scope.functionKind.joinsName = false := by
  cases scope <;> rfl

theorem Forming.function (hg : g.Forming start) (hc : start.Reaches c) (scope : Scope)
    (hattributes : FramesAttributes start attributes) (hpeek : c.peek? = some keyword) :
    (g.function scope attributes keyword c).Meets fun r => Forms start scope.admits c r.1 r.2 := by
  rw [Grammar.function]
  apply (meets_functionName_takes hpeek).bind
  rintro ⟨name, c₁⟩ ⟨hafterName, hname⟩
  refine (Cursor.meets_skipGenericParameters c₁).bind fun c₂ hgeneric => ?_
  have hpasses := (Cursor.Passes.advance hpeek).trans_reaches (hafterName.trans hgeneric)
  apply (hg.parameters (hc.trans hpasses.1)).bind
  rintro ⟨parameters, c₃⟩ hparameters
  refine (meets_skipFunctionType c₃).bind fun c₄ htype => ?_
  have hinside₄ := (hparameters.of_reaches hpasses.1).trans_reaches htype
  apply (hg.functionBody (hc.trans hinside₄.reaches)).bind
  rintro ⟨body, c₅⟩ ⟨hbody, hencloses⟩
  have hlater := hparameters.reaches.trans (htype.trans hbody.reaches)
  have hplaced : Forms start scope.functionKind.mayHold c (parameters ++ (body.map Node.children).getD []) c₅ := by
    refine (hinside₄.mono fun kind hkind => ?_).append (hbody.mono fun kind hkind => ?_)
    · rw [mayHold_functionKind, hkind, Bool.true_or]
    · rw [mayHold_functionKind, hkind, Bool.or_true]
  refine Forms.node hg.valid hc (hpasses.trans_reaches hlater) (admits_functionKind scope)
    ⟨?_, ?_, ?_, List.forall_mem_nil _⟩ hattributes hplaced
  · rw [Cursor.here_of_peek? hpeek]
  · exact .word name (hname.trans_reaches (hgeneric.trans hlater)) (joinsName_functionKind scope) rfl rfl
  · exact fun span hspan => (hencloses span hspan).widen hinside₄.reaches (.refl c₅)

/-! ### Types -/

theorem admits_typeKind (scope : Scope) (word : String) : scope.admits (typeKind word) = true := by
  unfold typeKind
  split <;> cases scope <;> rfl

theorem joinsName_typeKind (word : String) : (typeKind word).joinsName = true := by
  unfold typeKind
  split <;> rfl

theorem mayHold_typeKind (word : String) : (typeKind word).mayHold = Scope.typeBody.admits := by
  unfold typeKind
  split <;> rfl

theorem Forming.typeDeclaration (hg : g.Forming start) (hc : start.Reaches c) (scope : Scope)
    (hattributes : FramesAttributes start attributes) (hpeek : c.peek? = some keyword) :
    (g.typeDeclaration attributes keyword c).Meets fun r => Forms start scope.admits c r.1 r.2 := by
  rw [Grammar.typeDeclaration]
  dsimp only
  generalize hname : c.advance.advanceBy _ = c₁
  have hafterName : c.advance.Reaches c₁ := ⟨_, hname.symm⟩
  cases hstalled : c.advance.hasStalled c₁ with
  | true => exact Outcome.meets_expected _ _
  | false =>
      have hnamePasses := hafterName.passes hstalled
      rw [if_neg Bool.false_ne_true]
      refine (meets_skipTypeHead c₁).bind fun c₂ hhead => ?_
      have hreaches₂ := (Cursor.Reaches.advance c).trans (hafterName.trans hhead)
      apply (Cursor.meets_expectSymbol_next c₂ _ _).bind
      rintro ⟨opener, c₃⟩ ⟨hpeekOpener, hopener, rfl⟩
      have hreaches₃ := hreaches₂.trans (.advance c₂)
      apply (hg.statements (hc.trans hreaches₃) _ _).bind
      rintro ⟨members, c₄⟩ hmembers
      apply (Cursor.meets_expectCloser_next c₄ _ _).bind
      rintro ⟨closer, c₅⟩ ⟨hpeekCloser, hcloser, rfl⟩
      have hends := endsWith_advance hmembers.reaches hpeekCloser hcloser
      have hgroup := Cursor.encloses_group ((hc.trans hreaches₂).valid hg.valid) hpeekOpener hends.taken
        (Lexeme.closes_curly hopener hcloser)
      have hlater := hhead.trans ((Cursor.Reaches.advance c₂).trans (hmembers.reaches.trans (.advance c₄)))
      have hpasses := (Cursor.Passes.advance hpeek).trans_reaches (hafterName.trans hlater)
      have hinside := (hmembers.of_reaches hreaches₃).trans_reaches (.advance c₄)
      refine Forms.node hg.valid hc hpasses (admits_typeKind scope _)
        ⟨?_, ?_, ?_, List.forall_mem_nil _⟩ hattributes ?_
      · rw [hends.last, Cursor.here_of_peek? hpeek]
      · exact .joined c.advance c₁ (.advance c) hnamePasses hlater (joinsName_typeKind _) rfl rfl
      · intro span hspan
        obtain rfl := Option.some.inj hspan
        exact hgroup.widen hreaches₂ (.refl _)
      · rw [mayHold_typeKind]
        exact hinside

end SourceLint.Grammar
