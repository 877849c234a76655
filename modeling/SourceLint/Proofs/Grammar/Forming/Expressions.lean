import SourceLint.Proofs.Grammar.Abreast.Alike
import SourceLint.Proofs.Grammar.Delimiters.Skipping
import SourceLint.Proofs.Grammar.Expressions
import SourceLint.Proofs.Grammar.Forming.Basic

/-!
# Nodes of expressions are well formed

The nodes of an expression are calls, literals and closures. A call has the name of its operand as far as it has
been read, from the first lexeme of the operand on, so the suffixes of an operand keep a cursor behind that lexeme
where the name ends.
-/

namespace SourceLint.Grammar

/-- The productions of the grammar form nodes from the lexemes of a text, and a present expression has taken a
lexeme. -/
structure Forming (start : Cursor) (g : Grammar) : Prop where
  valid : start.Valid
  statements : ∀ {c : Cursor}, start.Reaches c → ∀ scope inSwitch,
    (g.statements scope inSwitch c).Meets fun r => Forms start scope.admits c r.1 r.2
  expression : ∀ {c : Cursor}, start.Reaches c → ∀ trailing,
    (g.expression trailing c).Meets fun r =>
      Forms start NodeKind.isExpression c r.1.nodes r.2 ∧ (r.1.isPresent = true → c.Passes r.2)
  ifStatement : ∀ {c : Cursor}, start.Reaches c →
    (g.ifStatement c).Meets fun r => Forms start (· == .ifStatement) c [r.1] r.2

variable {g : Grammar} {start c middle : Cursor} {opener : Lexeme} {nodes : List Node}

/-! ### Groups of expressions -/

/-- The nodes of the groups of an expression. -/
abbrev FormsExpression (start c : Cursor) (nodes : List Node) (later : Cursor) : Prop :=
  Forms start NodeKind.isExpression c nodes later

/-- A group ends with a lexeme that is the symbol. -/
structure EndsWith (c later : Cursor) (symbol : String) (closer : Lexeme) : Prop where
  isSymbol : closer.isSymbol symbol = true
  taken : c.Takes later closer
  last : later.lastStop = closer.stop

theorem endsWith_advance {symbol : String} {closer : Lexeme} (h : c.Reaches middle)
    (hpeek : middle.peek? = some closer) (hsymbol : closer.isSymbol symbol = true) :
    EndsWith c middle.advance symbol closer :=
  ⟨hsymbol, ⟨middle, h, hpeek, .refl _⟩, Cursor.lastStop_advance_of_peek? hpeek⟩

theorem Forming.expressionOrLexeme (hg : g.Forming start) (hc : start.Reaches c) :
    (g.expressionOrLexeme c).Meets fun r => FormsExpression start c r.1 r.2 := by
  apply (hg.expression hc true).bind
  rintro ⟨e, later⟩ ⟨he, -⟩
  change FormsExpression start c e.nodes (if c.hasStalled later then later.advance else later)
  split
  · exact he.trans_reaches (.advance later)
  · exact he

theorem Forming.argumentRound (hg : g.Forming start) (hc : start.Reaches c) (opener : Lexeme)
    (closing : String) (h : FormsExpression start c nodes middle) :
    (g.argumentRound opener closing nodes middle).Meets
      (Round.Keeps (FormsExpression start c) fun r later =>
        FormsExpression start c r.1 later ∧ EndsWith c later closing r.2) := by
  rw [Grammar.argumentRound]
  split
  · exact Outcome.meets_unclosed _
  · rename_i lexeme hpeek
    split
    · rename_i hcloser
      exact ⟨h.trans_reaches (.advance middle), endsWith_advance h.reaches hpeek hcloser⟩
    · split
      · exact h.trans_reaches (.advance middle)
      · split
        · exact Outcome.meets_unexpected _
        · split
          · exact h.trans_reaches (.advanceBy middle 2)
          · apply (hg.expressionOrLexeme (hc.trans h.reaches)).bind
            rintro ⟨more, later⟩ hmore
            exact h.append hmore

theorem Forming.arguments (hg : g.Forming start) (hc : start.Reaches c) (opener : Lexeme)
    (closing : String) :
    (g.arguments opener closing c).Meets fun r =>
      FormsExpression start c r.1.1 r.2 ∧ EndsWith c r.2 closing r.1.2 :=
  meets_repeatRounds (fun _ _ h => hg.argumentRound hc opener closing h) (Forms.skip (.refl c))

theorem Forming.itemRound (hg : g.Forming start) (hc : start.Reaches c) (opener : Lexeme)
    {state : List Node × Bool} (h : FormsExpression start c state.1 middle) :
    (g.itemRound opener state middle).Meets
      (Round.Keeps (fun state later => FormsExpression start c state.1 later) fun r later =>
        FormsExpression start c r.1 later ∧ EndsWith c later "]" r.2.2) := by
  obtain ⟨nodes, isDictionary⟩ := state
  rw [Grammar.itemRound]
  dsimp only
  split
  · exact Outcome.meets_unclosed _
  · rename_i lexeme hpeek
    split
    · rename_i hcloser
      exact ⟨h.trans_reaches (.advance middle), endsWith_advance h.reaches hpeek hcloser⟩
    · split
      · exact h.trans_reaches (.advance middle)
      · split
        · exact h.trans_reaches (.advance middle)
        · split
          · exact Outcome.meets_unexpected _
          · apply (hg.expressionOrLexeme (hc.trans h.reaches)).bind
            rintro ⟨more, later⟩ hmore
            exact h.append hmore

theorem Forming.collection (hg : g.Forming start) (hc : start.Reaches c) (hpeek : c.peek? = some opener)
    (hopener : opener.isSymbol "[" = true) :
    (g.collection opener c.advance).Meets fun r => FormsExpression start c [r.1] r.2 ∧ c.Passes r.2 := by
  refine (meets_repeatRounds (fun _ _ h => hg.itemRound (hc.trans (.advance c)) opener h)
    (Forms.skip (.refl c.advance))).bind ?_
  rintro ⟨⟨nodes, isDictionary, closer⟩, later⟩ ⟨hnodes, hcloser⟩
  have hvalid := hc.valid hg.valid
  have hpasses := (Cursor.Passes.advance hpeek).trans_reaches hnodes.reaches
  have hbody := Cursor.encloses_group hvalid hpeek hcloser.taken
    (Lexeme.closes_square hopener hcloser.isSymbol)
  have hspan : Span.ofBounds opener.start closer.stop = .ofBounds c.here later.lastStop := by
    rw [hcloser.last, Cursor.here_of_peek? hpeek]
  have hchildren := hnodes.of_reaches (.advance c)
  have hlies : ∀ kind, Node.LiesBetween c later
      { kind, span := .ofBounds opener.start closer.stop, body := Span.ofBounds opener.stop closer.start
        children := nodes } := fun kind =>
    ⟨hspan, .anonymous rfl rfl, fun _ hsome => Option.some.inj hsome ▸ hbody, List.forall_mem_nil _⟩
  refine ⟨?_, hpasses⟩
  cases isDictionary with
  | false => exact Forms.unmarked hg.valid hc hpasses rfl (hlies .array) rfl hchildren
  | true => exact Forms.unmarked hg.valid hc hpasses rfl (hlies .dictionary) rfl hchildren

/-! ### Closures -/

theorem forms_nameParameter (hstart : start.Valid) (hc : start.Reaches c) {x : Lexeme}
    (hpeek : c.peek? = some x) :
    Forms start NodeKind.closure.mayHold c [nameParameter x] c.advance := by
  have hlies : (nameParameter x).LiesBetween c c.advance := by
    refine ⟨?_, .word x (.next hpeek (.refl _)) rfl rfl rfl, forall_of_eq_none rfl, List.forall_mem_nil _⟩
    rw [nameParameter, Cursor.here_of_peek? hpeek, Cursor.lastStop_advance_of_peek? hpeek, Lexeme.span,
      Span.ofBounds, Lexeme.stop, Nat.add_sub_cancel_left]
  exact Forms.unmarked hstart hc (.advance hpeek) rfl hlies rfl (Forms.skip (.advance c))

/-- The parameters that the next `n` lexemes name. -/
theorem forms_signatureParameters (hstart : start.Valid) (hc : start.Reaches c) (state : SignatureState)
    (n : Nat) :
    Forms start NodeKind.closure.mayHold c (signatureParameters state (c.ahead.take n)) (c.advanceBy n) := by
  induction n generalizing c state with
  | zero => exact Forms.skip (.refl c)
  | succ n ih =>
      cases hahead : c.ahead with
      | nil => exact Forms.skip (.advanceBy c (n + 1))
      | cons x ahead =>
          have hpeek : c.peek? = some x := Cursor.peek?_eq_some_iff.2 ⟨ahead, hahead⟩
          have hrest : ∀ state, Forms start NodeKind.closure.mayHold c.advance
              (signatureParameters state (ahead.take n)) (c.advance.advanceBy n) := by
            intro state
            have := ih (hc.trans (.advance c)) state
            rwa [Cursor.advance_of_cons hahead] at this ⊢
          have hskip : ∀ state, Forms start NodeKind.closure.mayHold c
              (signatureParameters state (ahead.take n)) (c.advanceBy (n + 1)) :=
            fun state => (hrest state).of_reaches (.advance c)
          rw [List.take_succ_cons, signatureParameters]
          split
          · exact hskip _
          · split
            · exact hskip _
            · split
              · exact hskip _
              · split
                · exact hskip _
                · split
                  · dsimp only
                    split
                    · exact hskip _
                    · exact (forms_nameParameter hstart hc hpeek).append (hrest _)
                  · exact hskip _

theorem forms_closureParameters (hstart : start.Valid) (hc : start.Reaches c) :
    Forms start NodeKind.closure.mayHold c (closureParameters c).1 (closureParameters c).2 := by
  rw [closureParameters]
  split
  · rename_i n _
    have h := (forms_signatureParameters hstart hc {} n).trans_reaches (.advanceBy _ 1)
    rwa [← Cursor.advanceBy_add] at h
  · exact Forms.skip (.refl c)

theorem meets_captureSpecifier_holds (c : Cursor) :
    (captureSpecifier c).Meets fun r =>
      c.Reaches r.2 ∧ (c.Valid → ∀ a ∈ r.1, c.Holds r.2 a.span) := by
  rw [captureSpecifier]
  split
  · exact ⟨.refl c, fun _ => List.forall_mem_nil _⟩
  · rename_i x hpeek
    split
    · apply (Cursor.meets_skipAttachedGroup c.advance).bind
      intro later hlater
      have hpasses := (Cursor.Passes.advance hpeek).trans_reaches hlater
      refine ⟨hpasses.1, fun hvalid a ha => ?_⟩
      obtain rfl := List.mem_singleton.1 ha
      rw [← Cursor.here_of_peek? hpeek]
      exact hpasses.holds hvalid
    · exact ⟨.refl c, fun _ => List.forall_mem_nil _⟩

/-- The captures of a closure, which are variables. -/
abbrev FormsCaptures (start c : Cursor) (nodes : List Node) (later : Cursor) : Prop :=
  Forms start (· == .varLocal) c nodes later

/-- The value of a captured variable, or nothing. -/
theorem Forming.capturedValue (hg : g.Forming start) (hc : start.Reaches c) :
    Outcome.Meets (fun r => FormsExpression start c r.1.nodes r.2)
      (if c.atSymbol "=" then g.expression true c.advance else pure (⟨[], false⟩, c)) := by
  split
  · apply (hg.expression (hc.trans (.advance c)) true).mono
    rintro ⟨e, later⟩ ⟨he, -⟩
    exact he.of_reaches (.advance c)
  · exact Forms.skip (.refl c)

theorem Forming.captureRound (hg : g.Forming start) (hc : start.Reaches c) (opener : Lexeme)
    (h : FormsCaptures start c nodes middle) :
    (g.captureRound opener nodes middle).Meets
      (Round.Keeps (FormsCaptures start c) (FormsCaptures start c)) := by
  have hmiddle := hc.trans h.reaches
  have hvalid := hmiddle.valid hg.valid
  have hskip := h.trans_reaches (.advance middle)
  cases hpeek : middle.peek? with
  | none =>
      rw [Grammar.captureRound, hpeek]
      exact Outcome.meets_unclosed _
  | some x =>
      by_cases hcloses : x.isSymbol "]" = true
      · rw [Grammar.captureRound, hpeek]
        dsimp only
        rw [if_pos hcloses]
        exact hskip
      by_cases hcomma : x.isSymbol "," = true
      · rw [Grammar.captureRound, hpeek]
        dsimp only
        rw [if_neg hcloses, if_pos hcomma]
        exact hskip
      rw [captureRound_of_variable hpeek (Bool.eq_false_iff.2 hcloses) (Bool.eq_false_iff.2 hcomma)]
      apply (meets_captureSpecifier_holds middle).bind
      rintro ⟨attributes, afterSpecifier⟩ ⟨hspecifier, hattributes⟩
      dsimp only
      generalize hname : afterSpecifier.peek?.filter _ = name
      have hafterName : afterSpecifier.Reaches
          (if name.isSome then afterSpecifier.advance else afterSpecifier) := by
        split
        · exact .advance _
        · exact .refl _
      have htaken : ∀ y, name = some y → middle.Takes
          (if name.isSome then afterSpecifier.advance else afterSpecifier) y := by
        rintro y rfl
        have hpeek' := (Option.filter_eq_some_iff.1 hname).1
        exact (Cursor.Takes.next hpeek' (.refl _)).of_reaches hspecifier
      generalize (if name.isSome then afterSpecifier.advance else afterSpecifier) = afterName
        at hafterName htaken
      have hreaches := hspecifier.trans hafterName
      apply (hg.capturedValue (hmiddle.trans hreaches)).bind
      rintro ⟨e, later⟩ he
      dsimp only [pure, Except.pure]
      rw [captured]
      cases hstalled : middle.hasStalled later with
      | true => exact hskip
      | false =>
          have hpasses := (hreaches.trans he.reaches).passes hstalled
          refine h.append (Forms.node hg.valid hmiddle hpasses rfl
            ⟨?_, ?_, forall_of_eq_none rfl, List.forall_mem_nil _⟩ ?_ ?_)
          · rw [Cursor.here_of_peek? hpeek]
          · exact Node.namedBetween_of_option (fun y hy => (htaken y hy).trans_reaches he.reaches) rfl rfl rfl
          · exact fun a ha => (hattributes hvalid a ha).frames hmiddle
          · exact (he.of_reaches hreaches).mono fun _ hkind => Bool.or_eq_true_iff.2 (.inl hkind)

theorem Forming.captureList (hg : g.Forming start) (hc : start.Reaches c) :
    (g.captureList c).Meets fun r => FormsCaptures start c r.1 r.2 := by
  rw [Grammar.captureList]
  split
  · exact Forms.skip (.refl c)
  · dsimp only
    split
    · exact meets_repeatRounds (fun _ _ h => hg.captureRound hc _ h) (Forms.skip (.advance c))
    · exact Forms.skip (.refl c)

theorem mayHold_closure_of_admits (kind : NodeKind) (h : Scope.functionBody.admits kind = true) :
    NodeKind.closure.mayHold kind = true := Bool.or_eq_true_iff.2 (.inr h)

theorem Forming.closure (hg : g.Forming start) (hc : start.Reaches c) :
    (g.closure c).Meets fun r =>
      FormsExpression start c [r.1] r.2 ∧ c.Passes r.2 ∧ r.1.span = .ofBounds c.here r.2.lastStop := by
  rw [Grammar.closure]
  apply (Cursor.meets_expectSymbol_next c _ _).bind
  rintro ⟨opener, c₁⟩ ⟨hpeek, hopener, rfl⟩
  have hc₁ := hc.trans (.advance c)
  apply (hg.captureList hc₁).bind
  rintro ⟨captures, c₂⟩ hcaptures
  have hc₂ := hc₁.trans hcaptures.reaches
  have hparameters := forms_closureParameters hg.valid hc₂
  dsimp only
  generalize closureParameters c₂ = signature at hparameters
  obtain ⟨parameters, c₃⟩ := signature
  have hc₃ := hc₂.trans hparameters.reaches
  apply (hg.statements hc₃ _ _).bind
  rintro ⟨statements, c₄⟩ hstatements
  apply (Cursor.meets_expectCloser_next c₄ _ _).bind
  rintro ⟨closer, c₅⟩ ⟨hpeek', hcloser, rfl⟩
  have hcapturesInside : Forms start NodeKind.closure.mayHold c.advance captures c₂ :=
    hcaptures.mono fun kind hkind => by rw [eq_of_beq hkind]; rfl
  have hinside := (hcapturesInside.append hparameters).append (hstatements.mono mayHold_closure_of_admits)
  have hends := endsWith_advance hinside.reaches hpeek' hcloser
  have hpasses := (Cursor.Passes.advance hpeek).trans_reaches (hinside.reaches.trans (.advance c₄))
  have hspan : Span.ofBounds opener.start closer.stop = .ofBounds c.here c₄.advance.lastStop := by
    rw [hends.last, Cursor.here_of_peek? hpeek]
  have hbody := Cursor.encloses_group (hc.valid hg.valid) hpeek hends.taken
    (Lexeme.closes_curly hopener hcloser)
  refine ⟨Forms.unmarked hg.valid hc hpasses rfl
    ⟨hspan, .anonymous rfl rfl, ?_, List.forall_mem_nil _⟩ rfl ?_, hpasses, hspan⟩
  · exact fun _ hsome => Option.some.inj hsome ▸ hbody
  · exact (hinside.of_reaches (.advance c)).trans_reaches (.advance c₄)

/-! ### Operands -/

theorem Forming.primary (hg : g.Forming start) (hc : start.Reaches c) :
    (g.primary c).Meets fun r =>
      c.Reaches r.2 ∧ ∀ nodes, r.1 = some nodes → FormsExpression start c nodes r.2 ∧ c.Passes r.2 := by
  have hnone : Outcome.Meets (fun r : Option (List Node) × Cursor =>
      c.Reaches r.2 ∧ ∀ nodes, r.1 = some nodes → FormsExpression start c nodes r.2 ∧ c.Passes r.2)
      (.ok (none, c)) := ⟨.refl c, forall_of_eq_none rfl⟩
  have hsome : ∀ {nodes later}, FormsExpression start c nodes later → c.Passes later →
      Outcome.Meets (fun r : Option (List Node) × Cursor =>
        c.Reaches r.2 ∧ ∀ nodes, r.1 = some nodes → FormsExpression start c nodes r.2 ∧ c.Passes r.2)
        (.ok (some nodes, later)) := by
    intro nodes later hnodes hpasses
    refine ⟨hpasses.1, ?_⟩
    rintro _ ⟨⟩
    exact ⟨hnodes, hpasses⟩
  rw [Grammar.primary]
  split
  · exact hnone
  · rename_i lexeme hpeek
    have hpass := Cursor.Passes.advance hpeek
    have htake : ∀ n, Outcome.Meets (fun r : Option (List Node) × Cursor =>
        c.Reaches r.2 ∧ ∀ nodes, r.1 = some nodes → FormsExpression start c nodes r.2 ∧ c.Passes r.2)
        (.ok (some [], c.advanceBy (n + 1))) := fun n =>
      hsome (Forms.skip (.advanceBy c (n + 1))) (hpass.trans_reaches (.advanceBy _ n))
    split
    · exact htake 0
    · exact htake 0
    · exact htake 0
    · split
      · exact htake 0
      · exact hnone
    · rename_i hkind
      split
      · apply (hg.arguments (hc.trans (.advance c)) lexeme ")").bind
        rintro ⟨⟨nodes, closer⟩, later⟩ ⟨hnodes, -⟩
        exact hsome (hnodes.of_reaches (.advance c)) (hpass.trans_reaches hnodes.reaches)
      · split
        · rename_i htext
          apply (hg.collection hc hpeek (Lexeme.isSymbol_iff.2 ⟨hkind, eq_of_beq htext⟩)).bind
          rintro ⟨node, later⟩ ⟨hnode, hpasses⟩
          exact hsome hnode hpasses
        · split
          · apply (hg.closure hc).bind
            rintro ⟨node, later⟩ ⟨hnode, hpasses, -⟩
            exact hsome hnode hpasses
          · split
            · split
              · exact htake 1
              · exact hnone
            · split
              · exact htake 0
              · exact hnone
    · exact hnone

/-- What is known of an operand that has been read up to a cursor: its nodes, and where its callee ends. -/
structure FormsOperand (start c : Cursor) (state : OperandState) (later : Cursor) : Prop where
  nodes : FormsExpression start c state.nodes later
  calleePasses : c.Passes state.callee
  calleeReaches : state.callee.Reaches later

theorem FormsOperand.passes {state : OperandState} (h : FormsOperand start c state middle) :
    c.Passes middle := h.calleePasses.trans_reaches h.calleeReaches

/-- The name of a call is spelled by the lexemes of its callee. -/
theorem FormsOperand.namedBetween {state : OperandState} {later : Cursor}
    (h : FormsOperand start c state middle) (hlater : middle.Reaches later) {node : Node}
    (hkind : node.kind = .call) (hname : node.name = some (Lexeme.spelling (c.lexemesTo state.callee)))
    (hspan : node.nameSpan = some (.ofBounds c.here state.callee.lastStop)) :
    node.NamedBetween c later :=
  .joined c state.callee (.refl c) h.calleePasses (h.calleeReaches.trans hlater) (hkind ▸ rfl) hname hspan

/-- A call that has no list of arguments, only a closure. -/
theorem FormsOperand.callNode (hstart : start.Valid) (hc : start.Reaches c) {state : OperandState}
    {later : Cursor} {closure : Node} (h : FormsOperand start c state middle)
    (hclosure : FormsExpression start middle [closure] later) (hstop : closure.span.stop = later.lastStop) :
    FormsExpression start c
      [Grammar.callNode c state.callee closure.span.stop (state.nodes ++ [closure])] later := by
  have hboth := h.nodes.append hclosure
  have hnamed : (Grammar.callNode c state.callee closure.span.stop (state.nodes ++ [closure])).NamedBetween
      c later := h.namedBetween hclosure.reaches rfl rfl rfl
  refine Forms.unmarked hstart hc (h.passes.trans_reaches hclosure.reaches) rfl
    ⟨?_, hnamed, forall_of_eq_none rfl, List.forall_mem_nil _⟩ rfl hboth
  rw [Grammar.callNode, hstop]

/-- A call with a list of arguments, which is its body. -/
theorem FormsOperand.call (hstart : start.Valid) (hc : start.Reaches c) {state : OperandState} {later : Cursor}
    {opener closer : Lexeme} {arguments : List Node} (h : FormsOperand start c state middle)
    (hpeek : middle.peek? = some opener) (hopener : opener.isSymbol "(" = true)
    (hall : FormsExpression start c (state.nodes ++ arguments) later) (hpasses : middle.Passes later)
    (hcloser : EndsWith middle.advance later ")" closer) :
    FormsOperand start c
      { state with
        nodes := [{ Grammar.callNode c state.callee closer.stop (state.nodes ++ arguments) with
          body := Span.ofBounds opener.stop closer.start }] } later := by
  have hbody := Cursor.encloses_group ((hc.trans h.nodes.reaches).valid hstart) hpeek hcloser.taken
    (Lexeme.closes_round hopener hcloser.isSymbol)
  have hnamed : Node.NamedBetween c later
      { Grammar.callNode c state.callee closer.stop (state.nodes ++ arguments) with
        body := Span.ofBounds opener.stop closer.start } := h.namedBetween hpasses.1 rfl rfl rfl
  refine ⟨?_, h.calleePasses, h.calleeReaches.trans hpasses.1⟩
  refine Forms.unmarked hstart hc (h.passes.trans_reaches hpasses.1) rfl
    ⟨?_, hnamed, ?_, List.forall_mem_nil _⟩ rfl hall
  · rw [Grammar.callNode, hcloser.last]
  · intro span hspan
    obtain rfl := Option.some.inj hspan
    exact hbody.widen h.nodes.reaches (.refl later)

theorem FormsOperand.attachClosure (hstart : start.Valid) (hc : start.Reaches c) {state : OperandState}
    {later : Cursor} {closure : Node} (h : FormsOperand start c state middle)
    (hclosure : FormsExpression start middle [closure] later) (hpasses : middle.Passes later)
    (hspan : closure.span = .ofBounds middle.here later.lastStop) :
    FormsExpression start c (Grammar.attachClosure c state middle.lastStop closure) later := by
  have hmiddle := hc.trans h.nodes.reaches
  have hvalid := hmiddle.valid hstart
  have hstop : closure.span.stop = later.lastStop := by
    rw [hspan]
    exact Span.stop_ofBounds (Nat.le_of_lt (hpasses.here_lt_lastStop hvalid))
  have hcall := h.callNode hstart hc hclosure hstop
  rw [Grammar.attachClosure]
  split
  · rename_i call hlast
    split
    · rename_i hends
      simp only [Bool.and_eq_true, beq_iff_eq] at hends
      obtain ⟨before, hnodes⟩ := List.getLast?_eq_some_iff.1 hlast
      have hoperand := h.nodes
      rw [hnodes] at hoperand ⊢
      rw [List.dropLast_concat]
      obtain ⟨hbefore, hlastCall⟩ := hoperand.of_append
      obtain ⟨hformed, hbelow⟩ := hlastCall.of_single
      have hholds : ∀ kind : NodeKind, kind.isExpression = true → call.kind.mayHold kind = true := by
        rw [hends.1]
        exact fun _ hkind => hkind
      have hle : call.span.stop ≤ closure.span.stop := by
        rw [hends.2, hstop]
        exact hpasses.1.lastStop_le hvalid
      have hmarks : start.Marks closure.span.stop := by
        rw [hspan]
        exact ((hpasses.holds hvalid).frames hmiddle).ends
      have hextended := hformed.extend [closure] hle hmarks fun child hchild =>
        hholds _ (hclosure.admitted child hchild)
      exact hbefore.join (Forms.single (hlastCall.admitted call List.mem_cons_self) hextended
        (hbelow.append (hclosure.mono hholds)))
    · exact hcall
  · exact hcall

/-- One suffix of an operand goes on from the nodes and the callee that there are. -/
theorem Forming.suffixRound (hg : g.Forming start) (hc : start.Reaches c) (trailing : Bool)
    {state : OperandState} (h : FormsOperand start c state middle) :
    (g.suffixRound trailing c state middle).Meets
      (Round.Keeps (FormsOperand start c) fun nodes later =>
        FormsExpression start c nodes later ∧ c.Passes later) := by
  have hmiddle := hc.trans h.nodes.reaches
  have hstop : Outcome.Meets
      (Round.Keeps (FormsOperand start c) fun nodes later => FormsExpression start c nodes later ∧ c.Passes later)
      (.ok (.done state.nodes, middle)) := ⟨h.nodes, h.passes⟩
  have htake : ∀ n, Outcome.Meets
      (Round.Keeps (FormsOperand start c) fun nodes later => FormsExpression start c nodes later ∧ c.Passes later)
      (.ok (.again { state with callee := middle.advanceBy n }, middle.advanceBy n)) := fun n =>
    ⟨h.nodes.trans_reaches (.advanceBy middle n), h.passes.trans_reaches (.advanceBy middle n), .refl _⟩
  rw [Grammar.suffixRound]
  dsimp only
  split
  · exact hstop
  · rename_i lexeme hpeek
    have harguments : ∀ closing, (g.arguments lexeme closing middle.advance).Meets fun r =>
        FormsExpression start c (state.nodes ++ r.1.1) r.2 ∧ middle.Passes r.2 ∧
          EndsWith middle.advance r.2 closing r.1.2 := by
      intro closing
      apply (hg.arguments (hmiddle.trans (.advance middle)) lexeme closing).mono
      rintro ⟨⟨arguments, closer⟩, later⟩ ⟨harguments, hcloser⟩
      exact ⟨h.nodes.append (harguments.of_reaches (.advance middle)),
        (Cursor.Passes.advance hpeek).trans_reaches harguments.reaches, hcloser⟩
    split
    · exact hstop
    · rename_i hkind
      have hsymbol : ∀ text, (lexeme.text == text) = true → lexeme.isSymbol text = true := by
        rw [bne_iff_ne, ne_eq, not_not] at hkind
        exact fun text htext => Lexeme.isSymbol_iff.2 ⟨hkind, eq_of_beq htext⟩
      split
      · split
        · exact htake 2
        · exact hstop
      · split
        · rename_i hround
          apply (harguments ")").bind
          rintro ⟨⟨arguments, closer⟩, later⟩ ⟨hall, hpasses, hcloser⟩
          exact h.call hg.valid hc hpeek (hsymbol _ (Bool.and_eq_true_iff.1 hround).1) hall hpasses hcloser
        · split
          · apply (harguments "]").bind
            rintro ⟨⟨arguments, closer⟩, later⟩ ⟨hall, hpasses, -⟩
            exact ⟨hall, h.passes.trans_reaches hpasses.1, .refl later⟩
          · split
            · apply (hg.closure hmiddle).bind
              rintro ⟨closure, later⟩ ⟨hclosure, hpasses, hspan⟩
              exact ⟨h.attachClosure hg.valid hc hclosure hpasses hspan, h.calleePasses,
                h.calleeReaches.trans hpasses.1⟩
            · split
              · exact htake 1
              · exact hstop

theorem Forming.operand (hg : g.Forming start) (hc : start.Reaches c) (trailing : Bool) :
    (g.operand trailing c).Meets fun r =>
      FormsExpression start c (r.1.getD []) r.2 ∧ (r.1.isSome = true → c.Passes r.2) := by
  rw [Grammar.operand]
  apply (hg.primary hc).bind
  rintro ⟨_ | nodes, later⟩ ⟨hreaches, hprimary⟩
  · exact ⟨Forms.skip hreaches, fun h => Bool.noConfusion h⟩
  · obtain ⟨hnodes, hpasses⟩ := hprimary nodes rfl
    have hfirst : FormsOperand start c ⟨nodes, later⟩ later := ⟨hnodes, hpasses, .refl later⟩
    apply (meets_repeatRounds (fun _ _ h => hg.suffixRound hc trailing h) hfirst).bind
    rintro ⟨nodes, last⟩ ⟨hlast, hpasses'⟩
    exact ⟨hlast, fun _ => hpasses'⟩

/-! ### Operators -/

/-- The nodes of an expression, which has taken a lexeme if it is present. -/
def FormsOperands (start c : Cursor) (state : ExpressionNodes) (later : Cursor) : Prop :=
  FormsExpression start c state.nodes later ∧ (state.isPresent = true → c.Passes later)

theorem FormsOperands.trans_reaches {state : ExpressionNodes} {later : Cursor}
    (h : FormsOperands start c state middle) (hlater : middle.Reaches later) :
    FormsOperands start c state later :=
  ⟨h.1.trans_reaches hlater, fun hpresent => (h.2 hpresent).trans_reaches hlater⟩

theorem Forming.operandRound (hg : g.Forming start) (hc : start.Reaches c) (trailing : Bool)
    {state : ExpressionNodes} (h : FormsOperands start c state middle) :
    (g.operandRound trailing state middle).Meets
      (Round.Keeps (FormsOperands start c) (FormsOperands start c)) := by
  rw [Grammar.operandRound]
  dsimp only
  generalize hprefix : middle.advanceBy _ = first
  have hbefore := h.trans_reaches ⟨_, hprefix.symm⟩
  have hfirst := hc.trans hbefore.1.reaches
  apply (hg.operand hfirst trailing).bind
  rintro ⟨_ | more, afterOperand⟩ ⟨hmore, hpasses⟩
  · exact hbefore.trans_reaches hmore.reaches
  · have hnodes : FormsOperands start c ⟨state.nodes ++ more, true⟩ afterOperand :=
      ⟨hbefore.1.append hmore, fun _ => .of_reaches hbefore.1.reaches (hpasses rfl)⟩
    apply (Cursor.meets_repeatRounds_reaches meets_castRound () afterOperand).bind
    rintro ⟨_, afterCasts⟩ hcasts
    have hall := hnodes.trans_reaches hcasts
    dsimp only
    split
    · exact hall
    · split
      · exact hall
      · split
        · have hreaches := hall.1.reaches.trans (.advance afterCasts)
          apply (hg.expression (hc.trans hreaches) trailing).bind
          rintro ⟨e, later⟩ ⟨he, -⟩
          have hadvance := (Cursor.Reaches.advance afterCasts).trans he.reaches
          have hboth : FormsOperands start c ⟨state.nodes ++ more ++ e.nodes, true⟩ later :=
            ⟨hall.1.append (he.of_reaches (.advance afterCasts)),
              fun _ => (hall.2 rfl).trans_reaches hadvance⟩
          dsimp only
          split
          · exact hboth.trans_reaches (.advance later)
          · exact hboth
        · exact hall.trans_reaches (.advance afterCasts)

theorem Forming.expressionBody (hg : g.Forming start) (hc : start.Reaches c) (trailing : Bool) :
    (g.expressionBody trailing c).Meets fun r =>
      FormsExpression start c r.1.nodes r.2 ∧ (r.1.isPresent = true → c.Passes r.2) :=
  meets_repeatRounds (fun _ _ h => hg.operandRound hc trailing h)
    (⟨Forms.skip (.refl c), fun h => Bool.noConfusion h⟩ : FormsOperands start c ⟨[], false⟩ c)

end SourceLint.Grammar
