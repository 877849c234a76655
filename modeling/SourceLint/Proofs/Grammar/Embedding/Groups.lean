import SourceLint.Proofs.Grammar.Embedding.Skipping
import SourceLint.Proofs.Grammar.Expressions

/-!
# Groups and closures inside another text

`Follows` is what is assumed of two grammars: each production of the second one follows that of the first
one. From it, groups of arguments, collection literals and closures that are read inside another text are
those of the text alone.

## Implementation notes

Statements that reach the end of the text go on behind it in the other text, where nothing is known of
them. Every construct whose statements end with the text lacks its closing brace, so it is no construct of
the text alone.
-/

namespace SourceLint.Embedding

open Grammar (argumentRound itemRound groupLength? signatureLength? signatureParameters
  closureParameters)

variable {e : Embedding} {c c' d d' : Cursor} {x y : Lexeme} {lexemes others : List Lexeme}

/-- The expression in the other text. -/
def expression (e : Embedding) (found : ExpressionNodes) : ExpressionNodes :=
  ⟨e.nodes found.nodes, found.isPresent⟩

/-- The productions of the second grammar follow those of the first one inside the text. -/
structure Follows (e : Embedding) (g g' : Grammar) : Prop where
  sound : g.Sound
  statements : ∀ {c c' : Cursor}, e.Beside c c' → ∀ scope inSwitch,
    Outcome.FollowsUnless (fun r => e.Over r.2) (e.Along e.nodes c) (g.statements scope inSwitch c)
      (g'.statements scope inSwitch c')
  expression : ∀ {c c' : Cursor}, e.Beside c c' → ∀ trailing,
    Outcome.Follows (e.Along e.expression c) (g.expression trailing c) (g'.expression trailing c')
  ifStatement : ∀ {c c' : Cursor}, e.Beside c c' → c.ahead ≠ [] →
    Outcome.Follows (e.Along e.node c) (g.ifStatement c) (g'.ifStatement c')
  /-- There is no expression at the end of the text. -/
  absent : ∀ {c : Cursor}, c.ahead = [] → ∀ trailing r, g.expression trailing c = .ok r →
    r.1.isPresent = false
  /-- There is no expression at the separator behind the text. -/
  separator : ∀ {c' : Cursor}, c'.ahead = e.rest → e.rest ≠ [] → ∀ trailing,
    g'.expression trailing c' = .ok (⟨[], false⟩, c')

variable {g g' : Grammar}

/-! ### Groups of expressions -/

theorem Follows.expressionOrLexeme (hg : e.Follows g g') (h : e.Beside c c') (hahead : c.ahead ≠ []) :
    Outcome.Follows (e.Along e.nodes c) (g.expressionOrLexeme c) (g'.expressionOrLexeme c') := by
  rw [Grammar.expressionOrLexeme, Grammar.expressionOrLexeme]
  refine (hg.expression h true).bind ?_
  rintro ⟨found, later⟩ ⟨_, later'⟩ ⟨rfl, honward⟩
  dsimp only
  rw [h.hasStalled_eq honward.1]
  split
  · rename_i hstalled
    have hlater : later.ahead ≠ [] := by
      rw [Cursor.hasStalled, beq_iff_eq] at hstalled
      rwa [← List.length_pos_iff, ← hstalled, List.length_pos_iff]
    exact .ok ⟨rfl, honward.trans (honward.1.onward_advance hlater)⟩
  · exact .ok ⟨rfl, honward⟩

/-- The nodes and the closing delimiter of a group in the two texts. -/
def Closed (e : Embedding) (c : Cursor) (r r' : (List Node × Lexeme) × Cursor) : Prop :=
  r'.1.1 = e.nodes r.1.1 ∧ e.Twin r.1.2 r'.1.2 ∧ e.Onward c r.2 r'.2

theorem Follows.argumentRound (hg : e.Follows g g') (h : e.Onward c d d') (opener opener' : Lexeme)
    (closing : String) (nodes : List Node) :
    Outcome.Follows (e.Steps e.nodes (e.Closed c) c) (g.argumentRound opener closing nodes d)
      (g'.argumentRound opener' closing (e.nodes nodes) d') := by
  rw [Grammar.argumentRound, Grammar.argumentRound]
  cases h.1.meeting with
  | finished hahead =>
      rw [peek?_of_nil hahead]
      exact Outcome.follows_error _
  | @both x y hpeek hpeek' htwin hnext htaken =>
      have honward : e.Onward c d.advance d'.advance :=
        h.trans (h.1.onward_advance (ahead_ne_nil hpeek))
      have hlabel : (d'.peekAt? 1).any (fun l => l.isSymbol ":") =
          (d.peekAt? 1).any fun l => l.isSymbol ":" := by
        rw [Cursor.peekAt?_one hpeek, Cursor.peekAt?_one hpeek']
        exact hnext.atSymbol_eq (by decide)
      rw [hpeek, hpeek']
      dsimp only
      rw [htwin.isSymbol, htwin.isSymbol, htwin.isSymbol, htwin.isCloser, htwin.isWord, hlabel]
      split
      · exact .ok ⟨rfl, htwin, honward⟩
      · split
        · exact .ok ⟨rfl, honward⟩
        · split
          · exact Outcome.follows_error _
          · split
            · rename_i hword
              rw [Cursor.peekAt?_one hpeek, Bool.and_eq_true] at hword
              exact .ok ⟨rfl, honward.trans (hnext.onward_advance (ahead_ne_nil_of_next hword.2))⟩
            · refine (hg.expressionOrLexeme h.1 (ahead_ne_nil hpeek)).bind ?_
              rintro ⟨more, later⟩ ⟨_, later'⟩ ⟨rfl, hlater⟩
              exact .ok ⟨(e.nodes_append _ _).symm, h.trans hlater⟩

theorem Follows.arguments (hg : e.Follows g g') (h : e.Beside c c') (opener opener' : Lexeme)
    (closing : String) :
    Outcome.Follows (e.Closed c) (g.arguments opener closing c) (g'.arguments opener' closing c') := by
  have hrounds := h.follows_rounds (f := e.nodes) (R := e.Closed c) []
    fun nodes d d' honward => hg.argumentRound honward opener opener' closing nodes
  rwa [Relocation.nodes_nil] at hrounds

/-- The items of a collection literal and its closing delimiter in the two texts. -/
def ClosedItems (e : Embedding) (c : Cursor) (r r' : (List Node × Bool × Lexeme) × Cursor) : Prop :=
  r'.1.1 = e.nodes r.1.1 ∧ r'.1.2.1 = r.1.2.1 ∧ e.Twin r.1.2.2 r'.1.2.2 ∧ e.Onward c r.2 r'.2

theorem Follows.itemRound (hg : e.Follows g g') (h : e.Onward c d d') (opener opener' : Lexeme)
    (state : List Node × Bool) :
    Outcome.Follows (e.Steps (Prod.map e.nodes id) (e.ClosedItems c) c) (g.itemRound opener state d)
      (g'.itemRound opener' (Prod.map e.nodes id state) d') := by
  obtain ⟨nodes, isDictionary⟩ := state
  rw [Grammar.itemRound, Grammar.itemRound]
  cases h.1.meeting with
  | finished hahead =>
      rw [peek?_of_nil hahead]
      exact Outcome.follows_error _
  | @both x y hpeek hpeek' htwin hnext htaken =>
      have honward : e.Onward c d.advance d'.advance :=
        h.trans (h.1.onward_advance (ahead_ne_nil hpeek))
      rw [hpeek, hpeek']
      dsimp only [Prod.map]
      rw [htwin.isSymbol, htwin.isSymbol, htwin.isSymbol, htwin.isCloser]
      split
      · exact .ok ⟨rfl, rfl, htwin, honward⟩
      · split
        · exact .ok ⟨rfl, honward⟩
        · split
          · exact .ok ⟨rfl, honward⟩
          · split
            · exact Outcome.follows_error _
            · refine (hg.expressionOrLexeme h.1 (ahead_ne_nil hpeek)).bind ?_
              rintro ⟨more, later⟩ ⟨_, later'⟩ ⟨rfl, hlater⟩
              exact .ok ⟨by simp, h.trans hlater⟩

theorem Follows.collection (hg : e.Follows g g') (h : e.Beside c c') {opener opener' : Lexeme}
    (hopener : e.Twin opener opener') :
    Outcome.Follows (e.Along e.node c) (g.collection opener c) (g'.collection opener' c') := by
  have hrounds := h.follows_rounds (f := Prod.map e.nodes id) (R := e.ClosedItems c)
    ([], false) fun state d d' honward => hg.itemRound honward opener opener' state
  rw [Prod.map, Relocation.nodes_nil] at hrounds
  rw [Grammar.collection, Grammar.collection]
  refine hrounds.bind ?_
  rintro ⟨⟨nodes, isDictionary, closer⟩, later⟩ ⟨⟨nodes', isDictionary', closer'⟩, later'⟩
    ⟨hnodes, hkind, hcloser, honward⟩
  dsimp only at hnodes hkind hcloser
  subst hnodes hkind
  refine .ok ⟨?_, honward⟩
  simp [Relocation.node_eq, hopener.start, hopener.stop, hcloser.start, hcloser.stop]

/-! ### Signatures -/

theorem Beside.signatureLength?_eq (h : e.Beside c c') :
    signatureLength? c'.ahead = signatureLength? c.ahead := by
  obtain ⟨lexemes, lastStop, sourceStop⟩ := c
  obtain ⟨others, lastStop', sourceStop'⟩ := c'
  induction lexemes generalizing others lastStop lastStop' with
  | nil =>
      obtain rfl : others = e.rest := h.ahead_of_nil rfl
      rcases e.rest_cases with hrest | ⟨separator, behind, hrest, hsemicolon, -⟩
      · rw [hrest]
      · rw [hrest, Grammar.signatureLength?_of_semicolon hsemicolon, signatureLength?]
  | cons x lexemes ih =>
      obtain ⟨y, others, rfl, htwin, hnext⟩ := h.exists_twin
      rw [signatureLength?, signatureLength?, htwin.isKeyword, htwin.isSignaturePart,
        ih _ _ _ hnext]

theorem nameParameter_eq (h : e.Twin x y) :
    Grammar.nameParameter y = e.node (Grammar.nameParameter x) := by
  simp [Grammar.nameParameter, Relocation.node_eq, h.renamed, h.span]

theorem signatureParameters_eq (state : Grammar.SignatureState)
    (h : List.Forall₂ e.Twin lexemes others) :
    signatureParameters state others = e.nodes (signatureParameters state lexemes) := by
  induction h generalizing state with
  | nil => rw [signatureParameters, Relocation.nodes_nil]
  | cons htwin htail ih =>
      rw [signatureParameters, signatureParameters, htwin.isSymbol, htwin.isSymbol, htwin.isSymbol,
        htwin.isSymbol, htwin.isSymbol, htwin.isWord, htwin.text_beq (by decide), ih, ih, ih, ih, ih, ih,
        nameParameter_eq htwin]
      simp only [apply_ite e.nodes, Relocation.nodes_cons]

/-- The next lexemes in the other text begin with the twins of those in the text. -/
theorem Beside.take (h : e.Beside c c') {n : Nat} (hn : n ≤ c.ahead.length) :
    List.Forall₂ e.Twin (c.ahead.take n) (c'.ahead.take n) := by
  obtain ⟨twins, htwins, hahead⟩ := h.ahead
  rw [hahead, List.take_append_of_le_length (by rwa [← htwins.length_eq])]
  exact List.forall₂_take n htwins

theorem Beside.closureParameters (h : e.Beside c c') :
    e.Along e.nodes c (closureParameters c) (closureParameters c') := by
  rw [Grammar.closureParameters, Grammar.closureParameters, h.signatureLength?_eq]
  cases hlength : signatureLength? c.ahead with
  | none => exact ⟨(Relocation.nodes_nil _).symm, h.onward⟩
  | some n =>
      have hn := Grammar.lt_of_signatureLength? hlength
      exact ⟨signatureParameters_eq {} (h.take (Nat.le_of_lt hn)), h.advanceBy hn,
        (Cursor.Reaches.advanceBy c _).length_le⟩

/-! ### Capture lists -/

theorem follows_captureSpecifier (h : e.Beside c c') :
    Outcome.Follows (e.Along (List.map e.modifier) c) (Grammar.captureSpecifier c)
      (Grammar.captureSpecifier c') := by
  rw [Grammar.captureSpecifier, Grammar.captureSpecifier]
  cases h.meeting with
  | finished hahead hahead' =>
      rw [peek?_of_nil hahead]
      rcases peek?_rest hahead' with hpeek' | ⟨separator, hpeek', hsemicolon, -⟩
      · rw [hpeek']
        exact .ok ⟨rfl, h.onward⟩
      · simp only [hpeek', Grammar.isKeyword_of_semicolon hsemicolon]
        exact .ok ⟨rfl, h.onward⟩
  | @both x y hpeek hpeek' htwin hnext htaken =>
      rw [hpeek, hpeek']
      dsimp only
      rw [htwin.isKeyword, htwin.isKeyword]
      split
      · refine hnext.follows_skipAttachedGroup.bind ?_
        rintro later later' honward
        refine .ok ⟨?_, honward.1, Nat.le_trans honward.2 (Nat.le_of_lt htaken)⟩
        simp [Relocation.modifier, htwin.start, honward.1.lastStop]
      · exact .ok ⟨rfl, h.onward⟩

/-- A name in the other text has the text and the span of its twin. -/
theorem named_eq {name name' : Option Lexeme} (h : Option.Rel e.Twin name name') :
    name'.map Lexeme.text = (name.map Lexeme.text).map e.text ∧
      name'.map Lexeme.span = (name.map Lexeme.span).map e.span := by
  cases h with
  | none => exact ⟨rfl, rfl⟩
  | some htwin => exact ⟨congrArg some htwin.renamed, congrArg some htwin.span⟩

theorem Beside.captureName (h : e.Beside c c') :
    Option.Rel e.Twin (c.peek?.filter fun l => l.isIdentifier || l.isKeyword "self")
      (c'.peek?.filter fun l => l.isIdentifier || l.isKeyword "self") := by
  cases h.meeting with
  | finished hahead hahead' =>
      rw [peek?_of_nil hahead]
      rcases peek?_rest hahead' with hpeek' | ⟨separator, hpeek', hsemicolon, -⟩
      · rw [hpeek']
        exact .none
      · have hword := Grammar.isWord_of_semicolon hsemicolon
        rw [Lexeme.isWord, Bool.or_eq_false_iff] at hword
        rw [hpeek', Option.filter_some, hword.1, Grammar.isKeyword_of_semicolon hsemicolon]
        exact .none
  | @both x y hpeek hpeek' htwin hnext htaken =>
      rw [hpeek, hpeek', Option.filter_some, Option.filter_some, htwin.isIdentifier, htwin.isKeyword]
      split
      · exact .some htwin
      · exact .none

/-- The cursor behind a name that may be there. -/
theorem Onward.behindName {name name' : Option Lexeme} (h : e.Onward c d d')
    (hname : Option.Rel e.Twin name name') (hpeek : name.isSome = true → d.ahead ≠ []) :
    e.Onward c (if name.isSome then d.advance else d) (if name'.isSome then d'.advance else d') := by
  cases hname with
  | none => exact h
  | some htwin => exact h.trans (h.1.onward_advance (hpeek rfl))

/-- The value of a captured variable. -/
theorem Follows.capturedValue (hg : e.Follows g g') (h : e.Beside c c') :
    Outcome.Follows (e.Along e.expression c)
      (if c.atSymbol "=" then g.expression true c.advance else pure (⟨[], false⟩, c))
      (if c'.atSymbol "=" then g'.expression true c'.advance else pure (⟨[], false⟩, c')) := by
  rw [h.atSymbol_eq (by decide)]
  split
  · rename_i hequals
    have hvalue := h.onward_advance (ahead_ne_nil_of_next hequals)
    refine (hg.expression hvalue.1 true).mono ?_
    rintro r r' ⟨hfound, honward⟩
    exact ⟨hfound, hvalue.trans honward⟩
  · exact .ok ⟨by rw [Embedding.expression, Relocation.nodes_nil], h.onward⟩

theorem Onward.captured (h : e.Onward c d d') (hahead : d.ahead ≠ []) {later later' : Cursor}
    (hlater : e.Onward d later later') (nodes : List Node) {node node' : Node}
    (hnode : node' = e.node node) :
    e.Steps e.nodes (e.Along e.nodes c) c (Grammar.captured nodes d node later)
      (Grammar.captured (e.nodes nodes) d' node' later') := by
  rw [Grammar.captured, Grammar.captured, h.1.hasStalled_eq hlater.1]
  split
  · exact ⟨rfl, h.trans (h.1.onward_advance hahead)⟩
  · rw [hnode]
    exact ⟨by simp, h.trans hlater⟩

theorem Follows.captureRound (hg : e.Follows g g') (h : e.Onward c d d') (opener opener' : Lexeme)
    (nodes : List Node) :
    Outcome.Follows (e.Steps e.nodes (e.Along e.nodes c) c) (g.captureRound opener nodes d)
      (g'.captureRound opener' (e.nodes nodes) d') := by
  cases h.1.meeting with
  | finished hahead =>
      rw [Grammar.captureRound, peek?_of_nil hahead]
      exact Outcome.follows_error _
  | @both x y hpeek hpeek' htwin hnext htaken =>
      have honward : e.Onward c d.advance d'.advance :=
        h.trans (h.1.onward_advance (ahead_ne_nil hpeek))
      cases hcloses : x.isSymbol "]" with
      | true =>
          simp only [Grammar.captureRound, hpeek, hpeek', htwin.isSymbol, hcloses, if_true]
          exact .ok ⟨rfl, honward⟩
      | false =>
          cases hcomma : x.isSymbol "," with
          | true =>
              simp only [Grammar.captureRound, hpeek, hpeek', htwin.isSymbol, hcloses, hcomma,
                Bool.false_eq_true, if_false, if_true]
              exact .ok ⟨rfl, honward⟩
          | false =>
              rw [Grammar.captureRound_of_variable hpeek hcloses hcomma,
                Grammar.captureRound_of_variable hpeek' ((htwin.isSymbol _).trans hcloses)
                  ((htwin.isSymbol _).trans hcomma)]
              refine (follows_captureSpecifier h.1).bind ?_
              rintro ⟨attributes, afterSpecifier⟩ ⟨_, afterSpecifier'⟩ ⟨rfl, hspecifier⟩
              have hname := hspecifier.1.captureName
              have hbehind := hspecifier.behindName hname fun hsome hnil => by
                rw [Cursor.peek?, hnil] at hsome
                exact Bool.noConfusion hsome
              dsimp only at hname hbehind ⊢
              generalize afterSpecifier.peek?.filter _ = name at hname hbehind ⊢
              generalize afterSpecifier'.peek?.filter _ = name' at hname hbehind ⊢
              refine (hg.capturedValue hbehind.1).bind ?_
              rintro ⟨found, later⟩ ⟨_, later'⟩ ⟨rfl, hlater⟩
              have hvalue := hbehind.trans hlater
              refine .ok (h.captured (ahead_ne_nil hpeek) hvalue nodes ?_)
              have hstop : later'.lastStop = e.offset later.lastStop := hvalue.1.lastStop
              simp [Relocation.node_eq, htwin.start, hstop, named_eq hname, Embedding.expression]

/-! ### Closures -/

/-- A group that is closed in the text is as long in the other text. -/
theorem Beside.groupLength?_eq (h : e.Beside c c') (depth : Nat)
    (hclosed : e.rest = [] ∨ (groupLength? depth c.ahead).isSome = true) :
    groupLength? depth c'.ahead = groupLength? depth c.ahead := by
  obtain ⟨lexemes, lastStop, sourceStop⟩ := c
  obtain ⟨others, lastStop', sourceStop'⟩ := c'
  induction lexemes generalizing depth others lastStop lastStop' with
  | nil =>
      obtain rfl : others = e.rest := h.ahead_of_nil rfl
      rcases hclosed with hrest | hclosed
      · rw [hrest]
      · cases hclosed
  | cons x lexemes ih =>
      obtain ⟨y, others, rfl, htwin, hnext⟩ := h.exists_twin
      have hbehind : ∀ outer, (e.rest = [] ∨ ((groupLength? outer lexemes).map (· + 1)).isSome = true) →
          groupLength? outer others = groupLength? outer lexemes := fun outer houter =>
        ih outer _ (by rwa [Option.isSome_map] at houter) _ _ hnext
      dsimp only at hclosed ⊢
      rw [Grammar.groupLength?.eq_def] at hclosed
      rw [Grammar.groupLength?.eq_def, Grammar.groupLength?.eq_def depth (x :: lexemes)]
      dsimp only at hclosed ⊢
      rw [htwin.isOpener, htwin.isCloser]
      split
      · rename_i hopens
        rw [if_pos hopens] at hclosed
        rw [hbehind _ hclosed]
      · rename_i hopens
        rw [if_neg hopens] at hclosed
        split
        · rename_i hcloses
          rw [if_pos hcloses] at hclosed
          match depth with
          | 0 | 1 => rfl
          | depth + 2 => exact congrArg (Option.map (· + 1)) (hbehind _ hclosed)
        · rename_i hcloses
          rw [if_neg hcloses] at hclosed
          rw [hbehind _ hclosed]

theorem le_of_groupLength? {depth n : Nat} (h : groupLength? depth lexemes = some n) :
    n ≤ lexemes.length := by
  induction lexemes generalizing depth n with
  | nil => cases h
  | cons x lexemes ih =>
      have hbehind : ∀ outer, (groupLength? outer lexemes).map (· + 1) = some n →
          n ≤ lexemes.length + 1 := by
        rintro outer houter
        obtain ⟨m, hm, rfl⟩ := Option.map_eq_some_iff.1 houter
        exact Nat.succ_le_succ (ih hm)
      rw [Grammar.groupLength?.eq_def] at h
      dsimp only at h
      split at h
      · exact hbehind _ h
      · split at h
        · match depth with
          | 0 => cases h
          | 1 =>
              obtain rfl := Option.some.inj h
              exact Nat.succ_le_succ (Nat.zero_le _)
          | depth + 2 => exact hbehind _ h
        · exact hbehind _ h

/-- The lexemes at the cursor begin with a group and a signature behind it. -/
def signatureBehindGroup (c : Cursor) : Bool :=
  ((groupLength? 0 c.ahead).bind fun n => signatureLength? (c.ahead.drop n)).isSome

/-- A signature behind a group is found in both texts. -/
theorem Beside.signatureBehindGroup_eq (h : e.Beside c c')
    (hclosed : e.rest = [] ∨ (groupLength? 0 c.ahead).isSome = true) :
    signatureBehindGroup c' = signatureBehindGroup c := by
  rw [signatureBehindGroup, signatureBehindGroup, h.groupLength?_eq 0 hclosed]
  cases hlength : groupLength? 0 c.ahead with
  | none => rfl
  | some n =>
      have hbehind := (h.advanceBy (le_of_groupLength? hlength)).signatureLength?_eq
      rw [Cursor.ahead_advanceBy, Cursor.ahead_advanceBy] at hbehind
      rw [Option.bind_some, Option.bind_some, hbehind]

/-- A bracket right behind an opening brace is closed when something follows the text. -/
theorem Beside.bracketClosed (h : e.Beside c c') (hpeek : c.peek? = some x)
    (hbrace : x.isSymbol "\x7b" = true) : e.rest = [] ∨
      (c.advance.atSymbol "[" = true → (groupLength? 0 c.advance.ahead).isSome = true) := by
  refine h.contained.imp_right fun hcontained hbracket => ?_
  obtain ⟨ahead, hahead⟩ := Cursor.peek?_eq_some_iff.1 hpeek
  have hopens : (Cursor.mk (x :: ahead) 0 c.sourceStop).atSymbol "\x7b" = true := hbrace
  rw [Cursor.advance_of_cons hahead] at hbracket ⊢
  rw [hahead, Grammar.isContained, Bool.and_eq_true, Bool.and_eq_true, Grammar.bracketContained, hopens]
    at hcontained
  have hclosed := hcontained.1.2
  change (!(true && (Cursor.mk ahead x.stop c.sourceStop).atSymbol "[") || _) = true at hclosed
  rw [hbracket] at hclosed
  exact hclosed

theorem Follows.captureList (hg : e.Follows g g') (h : e.Beside c c')
    (hclosed : e.rest = [] ∨ (c.atSymbol "[" = true → (groupLength? 0 c.ahead).isSome = true)) :
    Outcome.Follows (e.Along e.nodes c) (g.captureList c) (g'.captureList c') := by
  have hcaptures : ∀ c : Cursor, ∀ g : Grammar, g.captureList c =
      c.peek?.elim (.ok ([], c)) fun opener =>
        if opener.isSymbol "[" && signatureBehindGroup c then
          repeatRounds (g.captureRound opener) [] c.advance
        else .ok ([], c) := by
    rintro ⟨_ | ⟨opener, lexemes⟩, lastStop, sourceStop⟩ g
    · rfl
    · rfl
  rw [hcaptures, hcaptures]
  cases h.meeting with
  | finished hahead hahead' =>
      rw [peek?_of_nil hahead]
      rcases peek?_rest hahead' with hpeek' | ⟨separator, hpeek', hsemicolon, -⟩
      · rw [hpeek']
        exact .ok ⟨(Relocation.nodes_nil _).symm, h.onward⟩
      · rw [hpeek', Option.elim_none, Option.elim_some,
          Grammar.isSymbol_of_semicolon hsemicolon (by decide)]
        exact .ok ⟨(Relocation.nodes_nil _).symm, h.onward⟩
  | @both x y hpeek hpeek' htwin hnext htaken =>
      rw [hpeek, hpeek', Option.elim_some, Option.elim_some, htwin.isSymbol]
      cases hbracket : x.isSymbol "[" with
      | false => exact .ok ⟨(Relocation.nodes_nil _).symm, h.onward⟩
      | true =>
          rw [h.signatureBehindGroup_eq (hclosed.imp_right fun hclosed =>
            hclosed ((Cursor.next_of_peek? hpeek).trans hbracket)), Bool.true_and]
          split
          · have hrounds := hnext.follows_rounds (f := e.nodes) (R := e.Along e.nodes c.advance)
              [] fun nodes d d' honward => hg.captureRound honward x y nodes
            rw [Relocation.nodes_nil] at hrounds
            refine hrounds.mono ?_
            rintro r r' ⟨hnodes, honward⟩
            exact ⟨hnodes, (h.onward_advance (ahead_ne_nil hpeek)).trans honward⟩
          · exact .ok ⟨(Relocation.nodes_nil _).symm, h.onward⟩

theorem Follows.closure (hg : e.Follows g g') (h : e.Beside c c') :
    Outcome.Follows (fun r r' => e.Along e.node c r r' ∧ c.ahead ≠ []) (g.closure c)
      (g'.closure c') := by
  rw [Grammar.closure, Grammar.closure]
  refine (h.follows_expectSymbol _ _).bind ?_
  rintro ⟨opener, c₁⟩ ⟨opener', c₁'⟩ hopening
  obtain ⟨(hopener : e.Twin opener opener'), hsymbol, hpeek, (rfl : c₁ = c.advance),
    (h₁ : e.Beside c.advance c₁'), htaken⟩ := hopening
  refine (hg.captureList h₁ (h.bracketClosed hpeek hsymbol)).bind ?_
  rintro ⟨captures, c₂⟩ ⟨_, c₂'⟩ ⟨rfl, (h₂ : e.Onward c.advance c₂ c₂')⟩
  have hparameters := h₂.1.closureParameters
  dsimp only
  generalize closureParameters c₂ = signature at hparameters ⊢
  generalize closureParameters c₂' = signature' at hparameters ⊢
  obtain ⟨parameters, c₃⟩ := signature
  obtain ⟨_, c₃'⟩ := signature'
  obtain ⟨rfl, (h₃ : e.Onward c₂ c₃ c₃')⟩ := hparameters
  refine (hg.statements h₃.1 _ _).bind_follows ?_ ?_
  · rintro ⟨statements, c₄⟩ (hover : e.Over c₄) r hr
    obtain ⟨r', hr', -⟩ := Outcome.exists_of_bind hr
    exact Beside.expectCloser_of_over hover _ _ _ hr'
  · rintro ⟨statements, c₄⟩ ⟨_, c₄'⟩ ⟨rfl, (h₄ : e.Onward c₃ c₄ c₄')⟩
    refine (h₄.1.follows_expectCloser _ _ _).bind ?_
    rintro ⟨closer, c₅⟩ ⟨closer', c₅'⟩
      ⟨(hcloser : e.Twin closer closer'), (h₅ : e.Onward c₄ c₅ c₅')⟩
    have honward := h₂.trans (h₃.trans (h₄.trans h₅))
    refine .ok ⟨⟨?_, (h.onward_advance (ahead_ne_nil hpeek)).trans honward⟩, ahead_ne_nil hpeek⟩
    simp [Relocation.node_eq, hopener.start, hopener.stop, hcloser.start, hcloser.stop]

end SourceLint.Embedding
