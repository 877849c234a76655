import SourceLint.Grammar.Expression
import SourceLint.Proofs.Grammar.Skipping

/-!
# Expressions read arranged nodes

The nodes of an expression are calls, literals and closures. A call is built around the nodes of its
callee when its arguments or its trailing closure have been read, so its span begins where the operand
begins; the invariant of the suffixes of an operand therefore speaks of the cursor before the operand.
-/

namespace SourceLint.Grammar

/-- The productions of the grammar read the nodes between two cursors. -/
structure Sound (g : Grammar) : Prop where
  isOfDepth : ∃ depth, g = ofDepth depth
  statements : ∀ {c : Cursor}, c.Valid → ∀ scope inSwitch,
    (g.statements scope inSwitch c).Meets fun r => Reads c r.1 r.2
  expression : ∀ {c : Cursor}, c.Valid → ∀ trailing,
    (g.expression trailing c).Meets fun r => Reads c r.1.nodes r.2
  ifStatement : ∀ {c : Cursor}, c.Valid →
    (g.ifStatement c).Meets fun r => Reads c [r.1] r.2

variable {g : Grammar} {c : Cursor}

/-! ### Groups of expressions -/

theorem Sound.expressionOrLexeme (hg : g.Sound) (hc : c.Valid) :
    (g.expressionOrLexeme c).Meets fun r => Reads c r.1 r.2 := by
  apply (hg.expression hc true).bind
  rintro ⟨e, later⟩ h
  change Reads c e.nodes (if c.hasStalled later then later.advance else later)
  split
  · exact h.trans_reaches hc (.advance later)
  · exact h

/-- What is read behind nodes that have been read. -/
theorem Sound.expressionOrLexeme_append (hg : g.Sound) (hc : c.Valid) {middle : Cursor}
    {nodes : List Node} (h : Reads c nodes middle) :
    (g.expressionOrLexeme middle).Meets fun r => Reads c (nodes ++ r.1) r.2 :=
  (hg.expressionOrLexeme (h.reaches.valid hc)).mono fun _ hmore => h.append hc hmore

theorem Sound.argumentRound (hg : g.Sound) (hc : c.Valid) (opener : Lexeme) (closing : String)
    {nodes : List Node} {middle : Cursor} (h : Reads c nodes middle) :
    (g.argumentRound opener closing nodes middle).Meets
      (Round.Keeps (fun nodes later => Reads c nodes later)
        fun r later => Reads c r.1 later ∧ later.lastStop = r.2.stop) := by
  rw [Grammar.argumentRound]
  split
  · exact Outcome.meets_unclosed _
  · rename_i lexeme hpeek
    split
    · exact ⟨h.trans_reaches hc (.advance middle), Cursor.lastStop_advance_of_peek? hpeek⟩
    · split
      · exact h.trans_reaches hc (.advance middle)
      · split
        · exact Outcome.meets_unexpected _
        · split
          · exact h.trans_reaches hc (.advanceBy middle 2)
          · apply (hg.expressionOrLexeme_append hc h).bind
            rintro ⟨more, later⟩ hmore
            exact hmore

theorem Sound.arguments (hg : g.Sound) (hc : c.Valid) (opener : Lexeme) (closing : String) :
    (g.arguments opener closing c).Meets fun r =>
      Reads c r.1.1 r.2 ∧ r.2.lastStop = r.1.2.stop :=
  meets_repeatRounds (fun _ _ h => hg.argumentRound hc opener closing h) (Reads.skip (.refl c))

theorem Sound.itemRound (hg : g.Sound) (hc : c.Valid) (opener : Lexeme)
    {state : List Node × Bool} {middle : Cursor} (h : Reads c state.1 middle) :
    (g.itemRound opener state middle).Meets
      (Round.Keeps (fun state later => Reads c state.1 later)
        fun r later => Reads c r.1 later ∧ later.lastStop = r.2.2.stop) := by
  obtain ⟨nodes, isDictionary⟩ := state
  rw [Grammar.itemRound]
  dsimp only
  split
  · exact Outcome.meets_unclosed _
  · rename_i lexeme hpeek
    split
    · exact ⟨h.trans_reaches hc (.advance middle), Cursor.lastStop_advance_of_peek? hpeek⟩
    · split
      · exact h.trans_reaches hc (.advance middle)
      · split
        · exact h.trans_reaches hc (.advance middle)
        · split
          · exact Outcome.meets_unexpected _
          · apply (hg.expressionOrLexeme_append hc h).bind
            rintro ⟨more, later⟩ hmore
            exact hmore

theorem Sound.collection (hg : g.Sound) (hc : c.Valid) {opener : Lexeme}
    (hpeek : c.peek? = some opener) :
    (g.collection opener c.advance).Meets fun r => Reads c [r.1] r.2 ∧ c.Passes r.2 := by
  refine (meets_repeatRounds (fun _ _ h => hg.itemRound hc.advance opener h)
    (Reads.skip (.refl c.advance))).bind ?_
  rintro ⟨⟨nodes, isDictionary, closer⟩, later⟩ ⟨hnodes, hstop⟩
  have hpasses := (Cursor.Passes.advance hpeek).trans_reaches hnodes.reaches
  refine ⟨Reads.node hc hpasses ?_ ?_ (hnodes.of_reaches hc (.advance c)), hpasses⟩
  · rw [hstop, Cursor.here_of_peek? hpeek]
  · cases isDictionary <;> exact ⟨nofun, nofun⟩

/-! ### Closures -/

theorem signatureLength?_eq_some {x : Lexeme} {lexemes : List Lexeme} {n : Nat}
    (h : signatureLength? (x :: lexemes) = some n) :
    n = 0 ∨ ∃ m, n = m + 1 ∧ signatureLength? lexemes = some m := by
  rw [signatureLength?] at h
  split at h
  · exact .inl (Option.some.inj h).symm
  · split at h
    · obtain ⟨m, hm, rfl⟩ := Option.map_eq_some_iff.1 h
      exact .inr ⟨m, rfl, hm⟩
    · cases h

/-- A signature ends at a lexeme that is there. -/
theorem lt_of_signatureLength? {lexemes : List Lexeme} {n : Nat}
    (h : signatureLength? lexemes = some n) : n < lexemes.length := by
  induction lexemes generalizing n with
  | nil => cases h
  | cons x lexemes ih =>
      rcases signatureLength?_eq_some h with rfl | ⟨m, rfl, hm⟩
      · exact Nat.succ_pos _
      · exact Nat.succ_lt_succ (ih hm)

theorem reads_nameParameter (hc : c.Valid) {lexeme : Lexeme} (hpeek : c.peek? = some lexeme) :
    Reads c [nameParameter lexeme] c.advance := by
  refine Reads.node hc (.advance hpeek) ?_ ⟨nofun, nofun⟩ (Reads.skip (.advance c))
  have hlt := (Cursor.Passes.advance hpeek).here_lt_lastStop hc
  rw [Cursor.here_of_peek? hpeek, Cursor.lastStop_advance_of_peek? hpeek] at hlt ⊢
  simp only [nameParameter, Lexeme.span, Span.ofBounds, Lexeme.stop]
  congr 1
  omega

/-- The parameters that the next `n` lexemes name. -/
theorem reads_signatureParameters (hc : c.Valid) (state : SignatureState) (n : Nat) :
    Reads c (signatureParameters state (c.ahead.take n)) (c.advanceBy n) := by
  induction n generalizing c state with
  | zero => exact Reads.skip (.refl c)
  | succ n ih =>
      cases hahead : c.ahead with
      | nil => exact Reads.skip (.advanceBy c (n + 1))
      | cons lexeme ahead =>
          have hpeek : c.peek? = some lexeme := Cursor.peek?_eq_some_iff.2 ⟨ahead, hahead⟩
          have hrest : ∀ state, Reads c.advance (signatureParameters state (ahead.take n))
              (c.advance.advanceBy n) := by
            intro state
            have := ih hc.advance state
            rwa [Cursor.advance_of_cons hahead] at this ⊢
          have hskip : ∀ state, Reads c (signatureParameters state (ahead.take n))
              (c.advanceBy (n + 1)) := fun state => (hrest state).of_reaches hc (.advance c)
          rw [List.take_succ_cons, signatureParameters]
          split
          · exact hskip _
          · split
            · exact hskip _
            · split
              · exact hskip _
              · split
                · exact hskip _
                · split
                  · dsimp only
                    split
                    · exact hskip _
                    · exact (reads_nameParameter hc hpeek).append hc (hrest _)
                  · exact hskip _

theorem reads_closureParameters (hc : c.Valid) :
    Reads c (closureParameters c).1 (closureParameters c).2 := by
  rw [closureParameters]
  split
  · rename_i n _
    have h := (reads_signatureParameters hc {} n).trans_reaches hc (.advanceBy _ 1)
    rwa [← Cursor.advanceBy_add] at h
  · exact Reads.skip (.refl c)

theorem meets_captureSpecifier (c : Cursor) :
    (captureSpecifier c).Meets fun r => c.Reaches r.2 := by
  rw [captureSpecifier]
  split
  · exact Cursor.Reaches.refl c
  · split
    · apply (Cursor.meets_skipAttachedGroup c.advance).bind
      intro later hlater
      exact (Cursor.Reaches.advance c).trans hlater
    · exact Cursor.Reaches.refl c

/-- The end of an item of a capture list that has been read up to `later`: the variable belongs to the
list, or nothing has been read and a lexeme is taken. -/
def captured (nodes : List Node) (c : Cursor) (node : Node) (later : Cursor) :
    Round (List Node) (List Node) × Cursor :=
  if c.hasStalled later then (.again nodes, c.advance) else (.again (nodes ++ [node]), later)

/-- What an item of a capture list consists of when it is a variable. -/
theorem captureRound_of_variable {x : Lexeme} (hpeek : c.peek? = some x) (hcloses : x.isSymbol "]" = false)
    (hcomma : x.isSymbol "," = false) (opener : Lexeme) (nodes : List Node) :
    g.captureRound opener nodes c = captureSpecifier c >>= fun specifier =>
      let name := specifier.2.peek?.filter fun l => l.isIdentifier || l.isKeyword "self"
      let afterName := if name.isSome then specifier.2.advance else specifier.2
      (if afterName.atSymbol "=" then g.expression true afterName.advance
        else pure (⟨[], false⟩, afterName)) >>= fun value =>
      pure (captured nodes c
        { kind := .varLocal, span := .ofBounds x.start value.2.lastStop
          name := name.map Lexeme.text, nameSpan := name.map Lexeme.span
          attributes := specifier.1, children := value.1.nodes } value.2) := by
  rw [captureRound, hpeek]
  dsimp only
  rw [hcloses, hcomma, if_neg Bool.false_ne_true, if_neg Bool.false_ne_true]
  cases captureSpecifier c with
  | error failure => rfl
  | ok specifier =>
      obtain ⟨attributes, afterSpecifier⟩ := specifier
      dsimp only [bind, Except.bind]
      generalize afterSpecifier.peek?.filter _ = name
      generalize (if name.isSome then afterSpecifier.advance else afterSpecifier) = afterName
      split
      · cases g.expression true afterName.advance with
        | error failure => rfl
        | ok value =>
            dsimp only [pure, Except.pure, captured]
            split <;> rfl
      · dsimp only [pure, Except.pure, captured]
        split <;> rfl

theorem Sound.captureRound (hg : g.Sound) (hc : c.Valid) (opener : Lexeme) {nodes : List Node}
    {middle : Cursor} (h : Reads c nodes middle) :
    (g.captureRound opener nodes middle).Meets
      (Round.Keeps (fun nodes later => Reads c nodes later) fun nodes later => Reads c nodes later) := by
  have hmiddle := h.reaches.valid hc
  rw [Grammar.captureRound]
  split
  · exact Outcome.meets_unclosed _
  · rename_i lexeme hpeek
    split
    · exact h.trans_reaches hc (.advance middle)
    · split
      · exact h.trans_reaches hc (.advance middle)
      · apply (meets_captureSpecifier middle).bind
        rintro ⟨attributes, afterSpecifier⟩ hspecifier
        dsimp only
        generalize hname : afterSpecifier.peek?.filter _ = name
        have hafterName : middle.Reaches
            (if name.isSome then afterSpecifier.advance else afterSpecifier) := by
          split
          · exact hspecifier.trans (.advance _)
          · exact hspecifier
        generalize (if name.isSome then afterSpecifier.advance else afterSpecifier) = afterName
          at hafterName
        -- the rest of the round, whatever the captured value is
        have hfinish : ∀ children later, Reads middle children later → Outcome.Meets
            (Round.Keeps (fun nodes later => Reads c nodes later) fun nodes later => Reads c nodes later)
            (if middle.hasStalled later then .ok (Round.again nodes, middle.advance)
            else .ok (Round.again (nodes ++ [{
              kind := .varLocal, span := .ofBounds lexeme.start later.lastStop
              name := name.map Lexeme.text, nameSpan := name.map Lexeme.span
              attributes, children }]), later)) := by
          intro children later hchildren
          cases hstalled : middle.hasStalled later with
          | true => exact h.trans_reaches hc (.advance middle)
          | false =>
              have hpasses := hchildren.reaches.passes hstalled
              refine h.append hc (Reads.node hmiddle hpasses ?_ ⟨nofun, nofun⟩ hchildren)
              rw [Cursor.here_of_peek? hpeek]
        split
        · apply (hg.expression (hafterName.valid hmiddle).advance true).bind
          rintro ⟨e, later⟩ he
          exact hfinish _ _ (he.of_reaches hmiddle (hafterName.trans (.advance _)))
        · exact hfinish _ _ (Reads.skip hafterName)

theorem Sound.captureList (hg : g.Sound) (hc : c.Valid) :
    (g.captureList c).Meets fun r => Reads c r.1 r.2 := by
  rw [Grammar.captureList]
  split
  · exact Reads.skip (.refl c)
  · dsimp only
    split
    · exact meets_repeatRounds (fun _ _ h => hg.captureRound hc _ h) (Reads.skip (.advance c))
    · exact Reads.skip (.refl c)

/-- What is inside a closure, and where the closure stands. -/
theorem Sound.closureParts (hg : g.Sound) (hc : c.Valid) :
    (g.closure c).Meets fun r =>
      r.1.kind = .closure ∧ Reads c r.1.children r.2 ∧ c.Passes r.2 ∧
        r.1.span = .ofBounds c.here r.2.lastStop := by
  rw [Grammar.closure]
  apply (Cursor.meets_expectSymbol c _ _).bind
  rintro ⟨opener, c₁⟩ ⟨hopener, hstart, -⟩
  have hc₁ := hopener.1.valid hc
  apply (hg.captureList hc₁).bind
  rintro ⟨captures, c₂⟩ hcaptures
  have hc₂ := hcaptures.reaches.valid hc₁
  have hparameters := reads_closureParameters hc₂
  dsimp only
  generalize closureParameters c₂ = signature at hparameters
  obtain ⟨parameters, c₃⟩ := signature
  have hc₃ := hparameters.reaches.valid hc₂
  apply (hg.statements hc₃ _ _).bind
  rintro ⟨statements, c₄⟩ hstatements
  apply (Cursor.meets_expectCloser c₄ _ _).bind
  rintro ⟨closer, c₅⟩ ⟨hcloser, -, hstop⟩
  have hinside := ((hcaptures.append hc₁ hparameters).append hc₁ hstatements).trans_reaches hc₁ hcloser.1
  refine ⟨rfl, hinside.of_reaches hc hopener.1, hopener.trans_reaches hinside.reaches, ?_⟩
  rw [hstart, hstop]

theorem Sound.closure (hg : g.Sound) (hc : c.Valid) :
    (g.closure c).Meets fun r =>
      Reads c [r.1] r.2 ∧ c.Passes r.2 ∧ r.1.span.stop = r.2.lastStop := by
  obtain ⟨depth, rfl⟩ := hg.isOfDepth
  refine (hg.closureParts hc).of_eq ?_
  rintro ⟨node, later⟩ hread ⟨hkind, hinside, hpasses, hspan⟩
  have hisRead : IsRead c node :=
    ⟨fun _ => ⟨depth, c, later, .refl c, hread⟩, fun h => by cases hkind.symm.trans h⟩
  refine ⟨Reads.node hc hpasses hspan hisRead hinside, hpasses, ?_⟩
  rw [hspan]
  exact Span.stop_ofBounds (Nat.le_of_lt (hpasses.here_lt_lastStop hc))

/-! ### Operands -/

theorem Sound.primary (hg : g.Sound) (hc : c.Valid) :
    (g.primary c).Meets fun r =>
      c.Reaches r.2 ∧ ∀ nodes, r.1 = some nodes → Reads c nodes r.2 ∧ c.Passes r.2 := by
  have hnone : Outcome.Meets (fun r : Option (List Node) × Cursor =>
      c.Reaches r.2 ∧ ∀ nodes, r.1 = some nodes → Reads c nodes r.2 ∧ c.Passes r.2)
      (.ok (none, c)) := ⟨.refl c, by simp⟩
  rw [Grammar.primary]
  split
  · exact hnone
  · rename_i lexeme hpeek
    have hpass := Cursor.Passes.advance hpeek
    have htake : ∀ n, Outcome.Meets (fun r : Option (List Node) × Cursor =>
        c.Reaches r.2 ∧ ∀ nodes, r.1 = some nodes → Reads c nodes r.2 ∧ c.Passes r.2)
        (.ok (some [], c.advanceBy (n + 1))) := by
      intro n
      refine ⟨.advanceBy c (n + 1), ?_⟩
      rintro nodes ⟨⟩
      exact ⟨Reads.skip (.advanceBy c (n + 1)), hpass.trans_reaches (.advanceBy _ n)⟩
    split
    · exact htake 0
    · exact htake 0
    · exact htake 0
    · split
      · exact htake 0
      · exact hnone
    · split
      · apply (hg.arguments hc.advance lexeme ")").bind
        rintro ⟨⟨nodes, closer⟩, later⟩ ⟨hnodes, -⟩
        refine ⟨hpass.1.trans hnodes.reaches, ?_⟩
        rintro _ ⟨⟩
        exact ⟨hnodes.of_reaches hc (.advance c), hpass.trans_reaches hnodes.reaches⟩
      · split
        · apply (hg.collection hc hpeek).bind
          rintro ⟨node, later⟩ ⟨hnode, hpasses⟩
          refine ⟨hpasses.1, ?_⟩
          rintro _ ⟨⟩
          exact ⟨hnode, hpasses⟩
        · split
          · apply (hg.closure hc).bind
            rintro ⟨node, later⟩ ⟨hnode, hpasses, -⟩
            refine ⟨hpasses.1, ?_⟩
            rintro _ ⟨⟩
            exact ⟨hnode, hpasses⟩
          · split
            · split
              · exact htake 1
              · exact hnone
            · split
              · exact htake 0
              · exact hnone
    · exact hnone

/-- A call from the first lexeme of an operand to the last one. -/
theorem reads_callNode (hc : c.Valid) {callee later : Cursor} {children : List Node}
    (hpasses : c.Passes later) (h : Reads c children later) :
    Reads c [callNode c callee later.lastStop children] later :=
  Reads.node hc hpasses rfl ⟨nofun, nofun⟩ h

theorem reads_attachClosure (hc : c.Valid) {state : OperandState} {middle later : Cursor}
    {closure : Node} (hpasses : c.Passes middle) (h : Reads c state.nodes middle)
    (hclosure : Reads middle [closure] later) (hstop : closure.span.stop = later.lastStop) :
    Reads c (attachClosure c state middle.lastStop closure) later := by
  have hboth := h.append hc hclosure
  have hcall : Reads c [callNode c state.callee closure.span.stop (state.nodes ++ [closure])]
      later := by
    rw [hstop]
    exact reads_callNode hc (hpasses.trans_reaches hclosure.reaches) hboth
  rw [attachClosure]
  split
  · rename_i call hlast
    split
    · rename_i hends
      simp only [Bool.and_eq_true, beq_iff_eq] at hends
      obtain ⟨before, hnodes⟩ := List.getLast?_eq_some_iff.1 hlast
      rw [hnodes, List.dropLast_concat]
      have harranged := h.arranged
      rw [hnodes] at harranged
      obtain ⟨hbefore, hbegins, hcallee⟩ := harranged.of_concat
      obtain ⟨-, -, hchildren⟩ := Node.arranged_singleton.1 hcallee
      obtain ⟨hbehind, -, -⟩ := Node.arranged_singleton.1 hclosure.arranged
      have hmiddle := (h.reaches.valid hc).lastStop_le_here
      have hcalleeSpan := call.span_location_le_stop
      have hclosureSpan := closure.span_location_le_stop
      have hlater : (Span.ofBounds call.span.location closure.span.stop).stop = later.lastStop := by
        rw [Span.stop_ofBounds (by omega), hstop]
      refine ⟨hboth.reaches, hbefore.append ?_ hbegins (Nat.le_refl _) ?_, ?_, ?_⟩
      · refine Node.arranged_singleton.2 ⟨Nat.le_refl _, Nat.le_of_eq hlater, ?_⟩
        rw [hlater]
        exact hchildren.append hclosure.arranged (by omega) (by omega) (by omega)
      · omega
      · -- the call ends with the closure, and everything else was there before
        intro node hnode
        simp only [Node.listingAll_append, Node.listingAll_cons, Node.listingAll_nil, Node.listing_eq,
          List.mem_append, List.mem_cons, List.append_nil] at hnode
        have hends' := hboth.ends
        simp only [hnodes, Node.listingAll_append, Node.listingAll_cons, Node.listingAll_nil,
          Node.listing_eq, List.mem_append, List.mem_cons, List.append_nil] at hends'
        rcases hnode with hbefore | rfl | hbelow | hclosure
        · exact hends' node (.inl (.inl hbefore))
        · rw [hlater, ← hstop]
          exact hends' closure (.inr (.inl rfl))
        · exact hends' node (.inl (.inr (.inr hbelow)))
        · exact hends' node (.inr hclosure)
      · -- the call is neither a closure nor a loop, and everything else was there before
        intro node hnode
        have hall := hboth.isRead node
        simp only [Node.listingAll_append, Node.listingAll_cons, Node.listingAll_nil, Node.listing_eq,
          List.mem_append, List.mem_cons, List.append_nil, hnodes] at hnode hall
        rcases hnode with hbefore | rfl | hbelow | hclosure
        · exact hall (.inl (.inl hbefore))
        · constructor <;> intro hkind <;> cases hends.1.symm.trans hkind
        · exact hall (.inl (.inr (.inr hbelow)))
        · exact hall (.inr hclosure)
    · exact hcall
  · exact hcall

/-- One suffix of an operand keeps its nodes arranged behind the cursor before the operand. -/
theorem Sound.suffixRound (hg : g.Sound) (hc : c.Valid) (trailing : Bool) {state : OperandState}
    {middle : Cursor} (h : Reads c state.nodes middle ∧ c.Passes middle) :
    (g.suffixRound trailing c state middle).Meets
      (Round.Keeps (fun (state : OperandState) later => Reads c state.nodes later ∧ c.Passes later)
        fun nodes later => Reads c nodes later) := by
  obtain ⟨hnodes, hpasses⟩ := h
  have hmiddle := hnodes.reaches.valid hc
  have hstop : Outcome.Meets
      (Round.Keeps (fun (state : OperandState) later => Reads c state.nodes later ∧ c.Passes later)
        fun nodes later => Reads c nodes later) (.ok (.done state.nodes, middle)) := hnodes
  have htake : ∀ n callee, Outcome.Meets
      (Round.Keeps (fun (state : OperandState) later => Reads c state.nodes later ∧ c.Passes later)
        fun nodes later => Reads c nodes later)
      (.ok (.again { state with callee := callee }, middle.advanceBy n)) := fun n callee =>
    ⟨hnodes.trans_reaches hc (.advanceBy middle n), hpasses.trans_reaches (.advanceBy middle n)⟩
  rw [Grammar.suffixRound]
  dsimp only
  split
  · exact hstop
  · rename_i lexeme hpeek
    have harguments : ∀ closing, (g.arguments lexeme closing middle.advance).Meets fun r =>
        Reads c (state.nodes ++ r.1.1) r.2 ∧ c.Passes r.2 ∧ r.2.lastStop = r.1.2.stop := by
      intro closing
      apply (hg.arguments hmiddle.advance lexeme closing).mono
      rintro ⟨⟨arguments, closer⟩, later⟩ ⟨harguments, hcloser⟩
      have hbehind := harguments.of_reaches hmiddle (.advance middle)
      exact ⟨hnodes.append hc hbehind, hpasses.trans_reaches hbehind.reaches, hcloser⟩
    split
    · exact hstop
    · split
      · split
        · exact htake 2 _
        · exact hstop
      · split
        · apply (harguments ")").bind
          rintro ⟨⟨arguments, closer⟩, later⟩ ⟨hall, hpasses', hcloser⟩
          refine ⟨?_, hpasses'⟩
          rw [← hcloser]
          exact Reads.node hc hpasses' rfl ⟨nofun, nofun⟩ hall
        · split
          · apply (harguments "]").bind
            rintro ⟨⟨arguments, closer⟩, later⟩ ⟨hall, hpasses', -⟩
            exact ⟨hall, hpasses'⟩
          · split
            · apply (hg.closure hmiddle).bind
              rintro ⟨closure, later⟩ ⟨hclosure, -, hend⟩
              exact ⟨reads_attachClosure hc hpasses hnodes hclosure hend,
                hpasses.trans_reaches hclosure.reaches⟩
            · split
              · exact htake 1 _
              · exact hstop

theorem Sound.operand (hg : g.Sound) (hc : c.Valid) (trailing : Bool) :
    (g.operand trailing c).Meets fun r => Reads c (r.1.getD []) r.2 := by
  rw [Grammar.operand]
  apply (hg.primary hc).bind
  rintro ⟨_ | nodes, later⟩ ⟨hreaches, hprimary⟩
  · exact Reads.skip hreaches
  · refine (meets_repeatRounds (fun _ _ h => hg.suffixRound hc trailing h)
      (hprimary nodes rfl)).bind ?_
    rintro ⟨nodes, later⟩ hnodes
    exact hnodes

/-! ### Operators -/

theorem meets_castRound (state : Unit) (c : Cursor) :
    (castRound state c).Meets fun r => c.Reaches r.2 := by
  rw [castRound]
  split
  · apply (Cursor.meets_skipType _).bind
    intro later hlater
    exact ((Cursor.Reaches.advance c).trans (Cursor.reaches_skipPostfixOperator _)).trans hlater
  · exact Cursor.Reaches.refl c

theorem Sound.operandRound (hg : g.Sound) (hc : c.Valid) (trailing : Bool)
    {state : ExpressionNodes} {middle : Cursor} (h : Reads c state.nodes middle) :
    (g.operandRound trailing state middle).Meets
      (Round.Keeps (fun state later => Reads c state.nodes later)
        fun state later => Reads c state.nodes later) := by
  rw [Grammar.operandRound]
  dsimp only
  generalize hprefix : middle.advanceBy _ = start
  have hstart : middle.Reaches start := ⟨_, hprefix.symm⟩
  have hbefore := h.trans_reaches hc hstart
  apply (hg.operand (hbefore.reaches.valid hc) trailing).bind
  rintro ⟨_ | more, afterOperand⟩ hmore
  · exact hbefore.trans_reaches hc hmore.reaches
  · have hnodes := hbefore.append hc hmore
    apply (Cursor.meets_repeatRounds_reaches meets_castRound () afterOperand).bind
    rintro ⟨_, afterCasts⟩ hcasts
    have hall := hnodes.trans_reaches hc hcasts
    have hvalid := hall.reaches.valid hc
    dsimp only
    split
    · exact hall
    · split
      · exact hall
      · split
        · apply (hg.expression hvalid.advance trailing).bind
          rintro ⟨e, later⟩ he
          have hboth := hall.append hc (he.of_reaches hvalid (.advance afterCasts))
          dsimp only
          split
          · exact hboth.trans_reaches hc (.advance later)
          · exact hboth
        · exact hall.trans_reaches hc (.advance afterCasts)

theorem Sound.expressionBody (hg : g.Sound) (hc : c.Valid) (trailing : Bool) :
    (g.expressionBody trailing c).Meets fun r => Reads c r.1.nodes r.2 :=
  meets_repeatRounds (fun _ _ h => hg.operandRound hc trailing h) (Reads.skip (.refl c))

end SourceLint.Grammar
