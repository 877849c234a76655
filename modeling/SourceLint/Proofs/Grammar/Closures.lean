import SourceLint.Proofs.Grammar.Structure

/-!
# The parts of a closure

The children of a closure are the items of its capture list, then the parameters of its signature, then
its statements. The items of the capture list are variables that begin with their attributes; where the
closure has a signature, they stand before the `in` that ends it, and the statements stand behind.
-/

namespace SourceLint.Grammar

variable {g : Grammar} {c : Cursor}

/-! ### Captures -/

/-- The node is an item of a capture list: its attributes stand where it begins, and what it has captured
stands behind that. -/
structure IsCapture (node : Node) : Prop where
  kind : node.kind = .varLocal
  nonempty : node.span.location < node.span.stop
  attributes : ∀ modifier ∈ node.attributes, modifier.span.location = node.span.location
  below : ∀ inner ∈ Node.listingAll node.children, node.span.location < inner.span.location

theorem meets_captureSpecifier_attributes (c : Cursor) :
    (captureSpecifier c).Meets fun r =>
      c.Reaches r.2 ∧ ∀ modifier ∈ r.1, modifier.span.location = c.here := by
  rw [captureSpecifier]
  split
  · exact ⟨.refl c, by simp⟩
  · rename_i lexeme hpeek
    split
    · apply (Cursor.meets_skipAttachedGroup c.advance).bind
      intro later hlater
      refine ⟨(Cursor.Reaches.advance c).trans hlater, ?_⟩
      simp [Span.ofBounds, Cursor.here_of_peek? hpeek]
    · exact ⟨.refl c, by simp⟩

/-- What an item of a capture list captures stands behind the equals sign. -/
theorem Sound.meets_capturedValue (hg : g.Sound) (hc : c.Valid) {afterName : Cursor}
    (hreaches : c.Reaches afterName) :
    Outcome.Meets
      (fun r => c.Reaches r.2 ∧ ∀ inner ∈ Node.listingAll r.1.nodes, c.here < inner.span.location)
      (if afterName.atSymbol "=" then g.expression true afterName.advance
        else pure (⟨[], false⟩, afterName)) := by
  split
  · rename_i hequals
    obtain ⟨x, hpeek⟩ := Cursor.exists_peek?_of_next hequals
    have hafterName := hreaches.valid hc
    refine (hg.expression hafterName.advance true).mono ?_
    rintro ⟨found, later⟩ hfound
    refine ⟨hreaches.trans ((Cursor.Reaches.advance afterName).trans hfound.reaches), ?_⟩
    intro inner hinner
    calc c.here
      _ ≤ afterName.here := hreaches.here_le hc
      _ < afterName.advance.lastStop := (Cursor.Passes.advance hpeek).here_lt_lastStop hafterName
      _ ≤ afterName.advance.here := hafterName.advance.lastStop_le_here
      _ ≤ inner.span.location := (hfound.arranged.of_mem_listingAll hinner).1
  · exact ⟨hreaches, by simp⟩

/-- An item of a capture list gives a capture or nothing. -/
theorem Sound.captures_captureRound (hg : g.Sound) (hc : c.Valid) (opener : Lexeme) {nodes : List Node}
    {middle : Cursor} (hreaches : c.Reaches middle) (hnodes : ∀ node ∈ nodes, IsCapture node) :
    (g.captureRound opener nodes middle).Meets
      (Round.Keeps (fun nodes later => c.Reaches later ∧ ∀ node ∈ nodes, IsCapture node)
        fun nodes _ => ∀ node ∈ nodes, IsCapture node) := by
  have hmiddle := hreaches.valid hc
  have hskip : c.Reaches middle.advance ∧ ∀ node ∈ nodes, IsCapture node :=
    ⟨hreaches.trans (.advance middle), hnodes⟩
  cases hpeek : middle.peek? with
  | none =>
      rw [Grammar.captureRound, hpeek]
      exact Outcome.meets_unclosed _
  | some x =>
      by_cases hcloses : x.isSymbol "]" = true
      · rw [Grammar.captureRound, hpeek]
        dsimp only
        rw [if_pos hcloses]
        exact hnodes
      by_cases hcomma : x.isSymbol "," = true
      · rw [Grammar.captureRound, hpeek]
        dsimp only
        rw [if_neg hcloses, if_pos hcomma]
        exact hskip
      rw [captureRound_of_variable hpeek (Bool.eq_false_iff.2 hcloses) (Bool.eq_false_iff.2 hcomma)]
      apply (meets_captureSpecifier_attributes middle).bind
      rintro ⟨attributes, afterSpecifier⟩ ⟨hspecifier, hattributes⟩
      dsimp only
      generalize afterSpecifier.peek?.filter _ = name
      have hafterName : middle.Reaches
          (if name.isSome then afterSpecifier.advance else afterSpecifier) := by
        split
        · exact hspecifier.trans (.advance _)
        · exact hspecifier
      refine (hg.meets_capturedValue hmiddle hafterName).bind ?_
      rintro ⟨found, later⟩ ⟨hlater, hbelow⟩
      dsimp only [pure, Except.pure]
      rw [captured]
      cases hstalled : middle.hasStalled later with
      | true => exact hskip
      | false =>
          have hlt := (hlater.passes hstalled).here_lt_lastStop hmiddle
          have hstart := Cursor.here_of_peek? hpeek
          rw [hstart] at hlt hattributes hbelow
          refine ⟨hreaches.trans hlater, fun node hnode => ?_⟩
          rcases List.mem_append.1 hnode with hnode | hnode
          · exact hnodes node hnode
          · obtain rfl := List.mem_singleton.1 hnode
            refine ⟨rfl, ?_, hattributes, hbelow⟩
            rw [Span.location_ofBounds, Span.stop_ofBounds (Nat.le_of_lt hlt)]
            exact hlt

theorem Sound.captures_captureList (hg : g.Sound) (hc : c.Valid) :
    (g.captureList c).Meets fun r => ∀ node ∈ r.1, IsCapture node := by
  rw [Grammar.captureList]
  split
  · simp [Outcome.Meets]
  · dsimp only
    split
    · refine meets_repeatRounds
        (I := fun nodes later => c.Reaches later ∧ ∀ node ∈ nodes, IsCapture node)
        (Q := fun nodes _ => ∀ node ∈ nodes, IsCapture node) ?_ ⟨.advance c, by simp⟩
      exact fun nodes middle h => hg.captures_captureRound hc _ h.1 h.2
    · simp [Outcome.Meets]

/-! ### Parameters -/

/-- The parameters of a signature are names with nothing below them. -/
theorem signatureParameters_leaf (state : SignatureState) (lexemes : List Lexeme) :
    ∀ node ∈ signatureParameters state lexemes, node.kind = .varParameter ∧ node.children = [] := by
  fun_induction signatureParameters state lexemes with
  | case1 => simp
  | case7 _ _ _ _ _ _ _ _ _ _ ih => exact List.forall_mem_cons.2 ⟨⟨rfl, rfl⟩, ih⟩
  | _ => assumption

/-! ### Closures -/

/-- The grammar reads the closure at the cursor or behind it. Its capture list has these items, and the
`in` that ends its signature begins at the offset, if it has a signature. -/
def ReadsCaptures (c : Cursor) (node : Node) (captures : List Node) (signature : Option Nat) : Prop :=
  ∃ depth start later behind, c.Reaches start ∧ (ofDepth depth).closure start = .ok (node, later) ∧
    (ofDepth depth).captureList start.advance = .ok (captures, behind) ∧
    signature = (signatureLength? behind.ahead).map fun n => (behind.advanceBy n).here

theorem expectSymbol_eq_ok {text : String} {what : Expectation} {x : Lexeme} {later : Cursor}
    (h : c.expectSymbol text what = .ok (x, later)) : c.peek? = some x ∧ later = c.advance := by
  rw [Cursor.expectSymbol] at h
  split at h
  · split at h
    · cases h
      exact ⟨by assumption, rfl⟩
    · cases h
  · cases h

theorem expectCloser_eq_ok {text : String} {opener x : Lexeme} {later : Cursor}
    (h : c.expectCloser text opener = .ok (x, later)) : c.peek? = some x ∧ later = c.advance := by
  rw [Cursor.expectCloser] at h
  split at h
  · split at h
    · cases h
      exact ⟨by assumption, rfl⟩
    · split at h
      · cases h
      · cases h
  · cases h

/-- A closure has an opening brace, a capture list, the parameters of a signature, statements and a closing
brace. -/
theorem exists_parts_of_closure {start later : Cursor} {node : Node}
    (h : g.closure start = .ok (node, later)) :
    ∃ opener captures behind statements last closer, start.peek? = some opener ∧
      g.captureList start.advance = .ok (captures, behind) ∧
      g.statements .functionBody false (closureParameters behind).2 = .ok (statements, last) ∧
      last.peek? = some closer ∧
      node =
        { kind := .closure, span := .ofBounds opener.start closer.stop
          body := Span.ofBounds opener.stop closer.start
          children := captures ++ (closureParameters behind).1 ++ statements } := by
  rw [closure] at h
  obtain ⟨⟨opener, c₁⟩, hopener, h⟩ := Outcome.exists_of_bind h
  obtain ⟨hpeek, rfl⟩ := expectSymbol_eq_ok hopener
  dsimp only at h
  obtain ⟨⟨captures, behind⟩, hcaptures, h⟩ := Outcome.exists_of_bind h
  dsimp only at h
  obtain ⟨⟨statements, last⟩, hstatements, h⟩ := Outcome.exists_of_bind h
  dsimp only at h
  obtain ⟨⟨closer, c₅⟩, hcloser, h⟩ := Outcome.exists_of_bind h
  obtain ⟨rfl, rfl⟩ := Prod.mk.inj (Except.ok.inj h)
  exact ⟨_, _, _, _, _, _, hpeek, hcaptures, hstatements, (expectCloser_eq_ok hcloser).1, rfl⟩

/-- The `in` that ends a signature stands behind the capture list and before the statements. -/
theorem signature_between {behind : Cursor} (hbehind : behind.Valid) {s : Nat}
    (hs : s ∈ (signatureLength? behind.ahead).map fun n => (behind.advanceBy n).here) :
    behind.lastStop ≤ s ∧ s < (closureParameters behind).2.lastStop := by
  obtain ⟨n, hn, rfl⟩ := Option.map_eq_some_iff.1 hs
  have hreaches := Cursor.Reaches.advanceBy behind n
  have hvalid := hreaches.valid hbehind
  have hahead : (behind.advanceBy n).ahead = behind.ahead.drop n := Cursor.ahead_advanceBy _ _
  rw [List.drop_eq_getElem_cons (lt_of_signatureLength? hn)] at hahead
  have hlast : (closureParameters behind).2 = (behind.advanceBy n).advance := by
    rw [closureParameters, hn]
    exact Cursor.advanceBy_add behind n 1
  rw [hlast]
  exact ⟨Nat.le_trans (hreaches.lastStop_le hbehind) hvalid.lastStop_le_here,
    hvalid.here_lt_advance hahead⟩

/-- Where the parts of a closure are: the captures before the `in` that ends the signature, the statements
behind it. -/
structure ClosureShape (node : Node) (captures : List Node) (signature : Option Nat) : Prop where
  kind : node.kind = .closure
  isCapture : ∀ capture ∈ captures, IsCapture capture
  children : ∃ parameters statements, node.children = captures ++ parameters ++ statements ∧
    (∀ parameter ∈ parameters, parameter.kind = .varParameter ∧ parameter.children = []) ∧
    ∀ s ∈ signature, ∀ inner ∈ Node.listingAll statements, s < inner.span.location
  body : ∀ body ∈ node.body, node.span.location < body.location ∧
    ∀ capture ∈ captures, body.location ≤ capture.span.location
  signature : ∀ s ∈ signature, s < node.span.stop ∧ (∀ body ∈ node.body, body.location ≤ s) ∧
    ∀ capture ∈ captures, capture.span.stop ≤ s

theorem ReadsCaptures.shape {node : Node} {captures : List Node} {signature : Option Nat} (hc : c.Valid)
    (h : ReadsCaptures c node captures signature) : ClosureShape node captures signature := by
  obtain ⟨depth, start, later, behind, hstart, hread, hcaptures, rfl⟩ := h
  have hg := sound_ofDepth depth
  have hvalid := hstart.valid hc
  obtain ⟨opener, captures', behind', statements, last, closer, hopener, hcaptures', hstatements,
    hcloser, rfl⟩ := exists_parts_of_closure hread
  obtain ⟨rfl, rfl⟩ := Prod.mk.inj (Except.ok.inj (hcaptures.symm.trans hcaptures'))
  have hreads := (hg.captureList hvalid.advance).of_ok hcaptures
  have hbehind := hreads.reaches.valid hvalid.advance
  have hparameters := reads_closureParameters hbehind
  have hmiddle := hparameters.reaches.valid hbehind
  have hstatementsRead := (hg.statements hmiddle .functionBody false).of_ok hstatements
  have hlast := hstatementsRead.reaches.valid hmiddle
  have hopened := Cursor.Passes.advance hopener
  have hstop := Cursor.lastStop_advance_of_peek? hopener
  constructor
  case kind => rfl
  case isCapture => exact (hg.captures_captureList hvalid.advance).of_ok hcaptures
  case children =>
    refine ⟨_, statements, rfl, ?_, fun s hs inner hinner => ?_⟩
    · rw [closureParameters]
      split
      · exact signatureParameters_leaf _ _
      · simp
    · calc s
        _ < (closureParameters behind).2.lastStop := (signature_between hbehind hs).2
        _ ≤ (closureParameters behind).2.here := hmiddle.lastStop_le_here
        _ ≤ inner.span.location := (hstatementsRead.arranged.of_mem_listingAll hinner).1
  case body =>
    rintro _ ⟨⟩
    have hlt := hopened.here_lt_lastStop hvalid
    rw [Cursor.here_of_peek? hopener, hstop] at hlt
    refine ⟨hlt, fun capture hcapture => ?_⟩
    have hbegins := (hreads.arranged.of_mem_listingAll (Node.mem_listingAll_of_mem hcapture)).1
    calc opener.stop
      _ = start.advance.lastStop := hstop.symm
      _ ≤ start.advance.here := hvalid.advance.lastStop_le_here
      _ ≤ capture.span.location := hbegins
  case signature =>
    intro s hs
    obtain ⟨hbefore, hin⟩ := signature_between hbehind hs
    have hends : closer.stop ≤ (Span.ofBounds opener.start closer.stop).stop := by
      simp only [Span.ofBounds, Span.stop]
      omega
    constructor
    · calc s
        _ < (closureParameters behind).2.lastStop := hin
        _ ≤ last.lastStop := hstatementsRead.reaches.lastStop_le hmiddle
        _ ≤ last.advance.lastStop := hlast.lastStop_le_advance
        _ = closer.stop := Cursor.lastStop_advance_of_peek? hcloser
        _ ≤ _ := hends
    · refine ⟨?_, fun capture hcapture => ?_⟩
      · rintro _ ⟨⟩
        calc opener.stop
          _ = start.advance.lastStop := hstop.symm
          _ ≤ behind.lastStop := hreads.reaches.lastStop_le hvalid.advance
          _ ≤ s := hbefore
      · exact Nat.le_trans (hreads.arranged.stop_le_of_mem hcapture) hbefore

/-- The captures of a closure in the forest of a text. -/
theorem exists_readsCaptures {node : Node} (h : ReadsClosure c node) :
    ∃ captures signature, ReadsCaptures c node captures signature := by
  obtain ⟨depth, start, later, hstart, hread⟩ := h
  obtain ⟨_, captures, behind, _, _, _, -, hcaptures, -⟩ := exists_parts_of_closure hread
  exact ⟨captures, _, depth, start, later, behind, hstart, hread, hcaptures, rfl⟩

end SourceLint.Grammar
