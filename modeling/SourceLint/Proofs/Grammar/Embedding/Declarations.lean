import SourceLint.Proofs.Grammar.Embedding.Expressions
import SourceLint.Proofs.Grammar.Declarations

/-!
# Declarations inside another text

Variables, functions and types with their modifiers. The clause that a `where` begins is looked through up
to a brace; in a text that is contained there is one, so it is found before the separator.
-/

namespace SourceLint.Embedding

open Grammar (modifierWords atModifier modifierKind? typeNameLength)

variable {e : Embedding} {c c' d d' : Cursor} {x y : Lexeme} {lexemes others : List Lexeme}
    {g g' : Grammar}

/-! ### Modifiers -/

theorem Beside.atModifier_eq (h : e.Beside c c') : atModifier c' = atModifier c := by
  rw [atModifier, atModifier]
  cases h.meeting with
  | finished hahead hahead' =>
      rw [peek?_of_nil hahead]
      rcases peek?_rest hahead' with hpeek' | ⟨separator, hpeek', hsemicolon, -⟩
      · rw [hpeek']
      · rw [hpeek']
        cases c'.peekAt? 1 with
        | none => rfl
        | some follower =>
            dsimp only
            rw [(Lexeme.isSymbol_iff.1 hsemicolon).2]
            rfl
  | @both x y hpeek hpeek' htwin hnext htaken =>
      rw [hpeek, hpeek', Cursor.peekAt?_one hpeek, Cursor.peekAt?_one hpeek']
      cases hnext.meeting with
      | finished hahead hahead' =>
          rw [peek?_of_nil hahead]
          rcases peek?_rest hahead' with hpeek₂' | ⟨separator, hpeek₂', hsemicolon, -⟩
          · rw [hpeek₂']
          · obtain ⟨hkind, htext⟩ := Lexeme.isSymbol_iff.1 hsemicolon
            simp [hpeek₂', hkind, htext]
      | @both z w hpeek₂ hpeek₂' htwin₂ hnext₂ htaken₂ =>
          rw [hpeek₂, hpeek₂', Cursor.peekAt?_two hpeek hpeek₂, Cursor.peekAt?_two hpeek' hpeek₂']
          dsimp only
          have hargument : (c'.advance.advance.next fun l => ["set", "safe", "unsafe"].contains l.text) =
              c.advance.advance.next fun l => ["set", "safe", "unsafe"].contains l.text := by
            refine hnext₂.next_eq (fun _ _ htwin => htwin.contains_text (by decide)) fun _ hsemicolon _ => ?_
            rw [(Lexeme.isSymbol_iff.1 hsemicolon).2]
            decide
          rw [Cursor.next, Cursor.next] at hargument
          rw [htwin.contains_text (by decide), htwin₂.kind, hargument]
          refine congrArg _ ?_
          cases hkind : z.kind with
          | token kind =>
              cases kind with
              | identifier | string | comment => rfl
              | keyword => rw [htwin₂.text_eq (by simp [hkind])]
              | other => rw [htwin₂.beginsWith (by simp [hkind])]
          | punctuation => rw [htwin₂.text_eq (by simp [hkind]), htwin₂.isApart]

/-- A modifier has the same text in both texts. -/
theorem text_eq_of_modifier (h : e.Twin x y) (hx : modifierWords.contains x.text = true) :
    y.text = x.text := by
  refine h.text.resolve_right fun hquoted => ?_
  have hplain : ∀ word ∈ modifierWords, Lexeme.beginsQuoted word = false := by decide
  rw [hplain _ (by simpa using hx)] at hquoted
  exact Bool.noConfusion hquoted.2.1

theorem Beside.modifierKind?_eq (h : e.Beside c c') : modifierKind? c' = modifierKind? c := by
  rw [modifierKind?, modifierKind?]
  cases h.meeting with
  | finished hahead hahead' =>
      rw [h.atModifier_eq, peek?_of_nil hahead]
      rcases peek?_rest hahead' with hpeek' | ⟨separator, hpeek', hsemicolon, -⟩
      · rw [hpeek']
      · have hmodifier : atModifier c = false := by rw [atModifier, peek?_of_nil hahead]
        simp [hpeek', hmodifier, Lexeme.isAttribute, (Lexeme.isSymbol_iff.1 hsemicolon).1]
  | @both x y hpeek hpeek' htwin hnext htaken =>
      rw [hpeek, hpeek']
      dsimp only
      rw [htwin.isAttribute, htwin.text_beq (by decide), h.atModifier_eq]
      split
      · rfl
      · split
        · rename_i hmodifier
          have hword : modifierWords.contains x.text = true := by
            rw [atModifier, hpeek] at hmodifier
            cases hfollower : c.peekAt? 1 with
            | none => simp [hfollower] at hmodifier
            | some follower =>
                simp only [hfollower, Bool.and_eq_true] at hmodifier
                exact hmodifier.1
          rw [text_eq_of_modifier htwin hword]
        · rfl

theorem follows_modifierRound (h : e.Onward c d d') (attributes : List Attribute) :
    Outcome.Follows (e.Steps (List.map e.modifier) (e.Along (List.map e.modifier) c) c)
      (Grammar.modifierRound attributes d)
      (Grammar.modifierRound (attributes.map e.modifier) d') := by
  rw [Grammar.modifierRound, Grammar.modifierRound, h.1.modifierKind?_eq]
  cases hkind : modifierKind? d with
  | none => exact .ok ⟨rfl, h⟩
  | some kind =>
      have hahead : d.ahead ≠ [] := by
        intro hnil
        rw [modifierKind?, peek?_of_nil hnil] at hkind
        cases hkind
      have honward := h.1.onward_advance hahead
      refine honward.1.follows_skipAttachedGroup.bind ?_
      rintro later later' hlater
      refine .ok ⟨?_, h.trans (honward.trans hlater)⟩
      cases kind with
      | none => simp
      | some kind =>
          simp [Relocation.modifier, h.1.here_eq hahead, hlater.1.lastStop]

theorem Beside.follows_modifiers (h : e.Beside c c') :
    Outcome.Follows (e.Along (List.map e.modifier) c) (Grammar.modifiers c) (Grammar.modifiers c') :=
  h.follows_rounds [] fun attributes _ _ honward => follows_modifierRound honward attributes

/-! ### Blocks -/

theorem Follows.block (hg : e.Follows g g') (h : e.Beside c c') :
    Outcome.Follows (e.Along e.node c) (g.block c) (g'.block c') := by
  rw [Grammar.block, Grammar.block]
  refine (h.follows_expectSymbol _ _).bind ?_
  rintro ⟨opener, c₁⟩ ⟨opener', c₁'⟩ hopening
  have hopener : e.Twin opener opener' := hopening.twin
  have h₁ : e.Beside c₁ c₁' := hopening.beside
  refine (hg.statements h₁ _ _).bind_follows ?_ ?_
  · rintro ⟨statements, c₂⟩ (hover : e.Over c₂) r hr
    obtain ⟨r', hr', -⟩ := Outcome.exists_of_bind hr
    exact Beside.expectCloser_of_over hover _ _ _ hr'
  · rintro ⟨statements, c₂⟩ ⟨_, c₂'⟩ ⟨rfl, (h₂ : e.Onward c₁ c₂ c₂')⟩
    refine (h₂.1.follows_expectCloser _ _ _).bind ?_
    rintro ⟨closer, c₃⟩ ⟨closer', c₃'⟩
      ⟨(hcloser : e.Twin closer closer'), (h₃ : e.Onward c₂ c₃ c₃')⟩
    have honward := h₂.trans h₃
    refine .ok ⟨?_, honward.1, Nat.le_trans honward.2 (Nat.le_of_lt hopening.taken)⟩
    simp [Relocation.node_eq, hopener.start, hopener.stop, hcloser.start, hcloser.stop]

/-! ### Variables -/

theorem follows_variablePattern (h : e.Beside c c') :
    Outcome.Follows (fun r r' => Option.Rel e.Twin r.1 r'.1 ∧ e.Onward c.advance r.2 r'.2 ∧ c.ahead ≠ [])
      (Grammar.variablePattern c) (Grammar.variablePattern c') := by
  rw [Grammar.variablePattern, Grammar.variablePattern]
  cases h.meeting with
  | finished hahead =>
      rw [peek?_of_nil hahead]
      exact Outcome.follows_error _
  | @both x y hpeek hpeek' htwin hnext htaken =>
      have hahead := ahead_ne_nil hpeek
      rw [hpeek, hpeek']
      dsimp only
      rw [htwin.isSymbol, htwin.isWord]
      split
      · exact (h.follows_skipGroup hahead).bind fun _ _ honward => .ok ⟨.none, honward, hahead⟩
      · split
        · exact .ok ⟨.some htwin, hnext.onward, hahead⟩
        · exact Outcome.follows_error _

theorem Follows.variableValue (hg : e.Follows g g') (h : e.Beside c c') :
    Outcome.Follows (e.Along e.nodes c) (g.variableValue c) (g'.variableValue c') := by
  have hblock : (c'.next fun l => l.isSymbol "\x7b" && !l.isOnNewLine) =
      c.next fun l => l.isSymbol "\x7b" && !l.isOnNewLine := by
    refine h.next_eq (fun x y htwin => ?_) fun separator hsemicolon _ => ?_
    · rw [htwin.isSymbol, htwin.isOnNewLine]
    · rw [Grammar.isSymbol_of_semicolon hsemicolon (by decide), Bool.false_and]
  rw [Grammar.variableValue, Grammar.variableValue, h.atSymbol_eq (by decide), hblock]
  split
  · rename_i hequals
    have hvalue := h.onward_advance (ahead_ne_nil_of_next hequals)
    refine (hg.expression hvalue.1 true).bind ?_
    rintro ⟨found, later⟩ ⟨_, later'⟩ ⟨rfl, (hlater : e.Onward c.advance later later')⟩
    dsimp only [Embedding.expression]
    split
    · exact .ok ⟨rfl, hvalue.trans hlater⟩
    · exact Outcome.follows_error _
  · split
    · refine (hg.block h).bind ?_
      rintro ⟨accessors, later⟩ ⟨_, later'⟩ ⟨rfl, (hlater : e.Onward c later later')⟩
      exact .ok ⟨by simp, hlater⟩
    · exact .ok ⟨(Relocation.nodes_nil _).symm, h.onward⟩

/-- The variables of a declaration that have been read, and where the next one begins if there is
one. -/
def VariablesPair (e : Embedding) (c : Cursor) (state : List Node × Nat) (d : Cursor)
    (state' : List Node × Nat) (d' : Cursor) : Prop :=
  state'.1 = e.nodes state.1 ∧ (d.ahead ≠ [] → state'.2 = e.offset state.2) ∧ e.Onward c d d'

theorem Follows.variableRound (hg : e.Follows g g') {state state' : List Node × Nat}
    (h : e.VariablesPair c state d state' d') (scope : Scope) (attributes : List Attribute) :
    Outcome.Follows (Round.Lockstep (e.VariablesPair c) (e.Along e.nodes c))
      (g.variableRound scope attributes state d)
      (g'.variableRound scope (attributes.map e.modifier) state' d') := by
  obtain ⟨nodes, start⟩ := state
  obtain ⟨_, start'⟩ := state'
  obtain ⟨rfl, hstart, honward⟩ := h
  rw [Grammar.variableRound, Grammar.variableRound]
  refine (follows_variablePattern honward.1).bind ?_
  rintro ⟨name, d₁⟩ ⟨name', d₁'⟩
    ⟨(hname : Option.Rel e.Twin name name'), (h₁ : e.Onward d.advance d₁ d₁'), hahead⟩
  refine h₁.1.follows_skipDeclaredType.bind ?_
  rintro d₂ d₂' h₂
  refine (hg.variableValue h₂.1).bind ?_
  rintro ⟨children, d₃⟩ ⟨_, d₃'⟩ ⟨rfl, (h₃ : e.Onward d₂ d₃ d₃')⟩
  have hlater : e.Onward d.advance d₃ d₃' := h₁.trans (h₂.trans h₃)
  have hstop : d₃'.lastStop = e.offset d₃.lastStop := hlater.1.lastStop
  have honward₃ : e.Onward c d₃ d₃' :=
    honward.trans ((honward.1.onward_advance hahead).trans hlater)
  dsimp only at hstart ⊢
  rw [hlater.1.atSymbol_eq (by decide), hstart hahead, hstop]
  split
  · rename_i hcomma
    have hnext := honward₃.trans (hlater.1.onward_advance (ahead_ne_nil_of_next hcomma))
    refine .ok ⟨?_, fun hmore => hnext.1.here_eq hmore, hnext⟩
    simp [Relocation.node_eq, named_eq hname]
  · refine .ok ⟨?_, honward₃⟩
    simp [Relocation.node_eq, named_eq hname]

theorem Follows.bindings (hg : e.Follows g g') (h : e.Beside c c') (hahead : c.ahead ≠ [])
    (scope : Scope) (attributes : List Attribute) :
    Outcome.Follows (e.Along e.nodes c) (g.bindings scope attributes c)
      (g'.bindings scope (attributes.map e.modifier) c') := by
  have honward := h.onward_advance hahead
  rw [Grammar.bindings, Grammar.bindings]
  exact honward.1.follows_repeatRounds (fun _ _ _ _ hpair => hg.variableRound hpair scope attributes)
    ⟨(Relocation.nodes_nil _).symm, fun _ => h.here_eq hahead, honward⟩

/-! ### Functions -/

theorem Follows.defaultValue (hg : e.Follows g g') (h : e.Beside c c') :
    Outcome.Follows (e.Along e.nodes c) (g.defaultValue c) (g'.defaultValue c') := by
  rw [Grammar.defaultValue, Grammar.defaultValue, h.atSymbol_eq (by decide)]
  split
  · rename_i hequals
    have hvalue := h.onward_advance (ahead_ne_nil_of_next hequals)
    refine (hg.expression hvalue.1 true).bind ?_
    rintro ⟨found, later⟩ ⟨_, later'⟩ ⟨rfl, (hlater : e.Onward c.advance later later')⟩
    exact .ok ⟨rfl, hvalue.trans hlater⟩
  · exact .ok ⟨(Relocation.nodes_nil _).symm, h.onward⟩

/-- The last of some lexemes and the last of their twins. -/
theorem rel_getLast? (h : List.Forall₂ e.Twin lexemes others) :
    Option.Rel e.Twin lexemes.getLast? others.getLast? := by
  induction h with
  | nil => exact .none
  | cons htwin htail ih =>
      cases htail with
      | nil => exact .some htwin
      | cons htwin' htail' => exact ih

/-- The words that pass a test are twins. -/
theorem forall₂_filter (h : List.Forall₂ e.Twin lexemes others) :
    List.Forall₂ e.Twin (lexemes.filter fun l => l.text != "_") (others.filter fun l => l.text != "_") := by
  induction h with
  | nil => exact .nil
  | @cons x y lexemes others htwin htail ih =>
      have hwild : (y.text != "_") = (x.text != "_") := congrArg _ (htwin.text_beq (by decide))
      rw [List.filter_cons, List.filter_cons, hwild]
      split
      · exact .cons htwin ih
      · exact ih

theorem Beside.words (h : e.Beside c c') :
    List.Forall₂ e.Twin (c.ahead.takeWhile Lexeme.isWord) (c'.ahead.takeWhile Lexeme.isWord) :=
  h.takeWhile _ (fun _ _ htwin => htwin.isWord) fun _ hsemicolon _ => Grammar.isWord_of_semicolon hsemicolon

/-- As many lexemes are taken as there are lexemes and twins that pass a test. -/
theorem Beside.onward_takeWhile (h : e.Beside c c') {test : Lexeme → Bool}
    (htwins : List.Forall₂ e.Twin (c.ahead.takeWhile test) (c'.ahead.takeWhile test)) :
    e.Onward c (c.advanceBy (c.ahead.takeWhile test).length)
      (c'.advanceBy (c'.ahead.takeWhile test).length) := by
  rw [← htwins.length_eq]
  exact ⟨h.advanceBy (List.takeWhile_sublist _).length_le, (Cursor.Reaches.advanceBy c _).length_le⟩

theorem Follows.parameterRound (hg : e.Follows g g') (h : e.Onward c d d') (opener opener' : Lexeme)
    (nodes : List Node) :
    Outcome.Follows (e.Steps e.nodes (e.Along e.nodes c) c) (g.parameterRound opener nodes d)
      (g'.parameterRound opener' (e.nodes nodes) d') := by
  rw [Grammar.parameterRound, Grammar.parameterRound]
  cases h.1.meeting with
  | finished hahead =>
      rw [peek?_of_nil hahead]
      exact Outcome.follows_error _
  | @both x y hpeek hpeek' htwin hnext htaken =>
      have honward : e.Onward c d.advance d'.advance :=
        h.trans (h.1.onward_advance (ahead_ne_nil hpeek))
      have hwords := h.1.words
      rw [hpeek, hpeek']
      dsimp only
      rw [htwin.isSymbol, htwin.isSymbol, htwin.isCloser]
      split
      · exact .ok ⟨rfl, honward⟩
      · split
        · exact .ok ⟨rfl, honward⟩
        · split
          · exact Outcome.follows_error _
          · have hbehind := h.1.onward_takeWhile hwords
            have hname := rel_getLast? (forall₂_filter hwords)
            generalize (List.filter _ (d.ahead.takeWhile Lexeme.isWord)).getLast? = name at hname ⊢
            generalize (List.filter _ (d'.ahead.takeWhile Lexeme.isWord)).getLast? = name' at hname ⊢
            refine hbehind.1.follows_skipDeclaredType.bind ?_
            rintro d₁ d₁' h₁
            refine (hg.defaultValue h₁.1).bind ?_
            rintro ⟨children, later⟩ ⟨_, later'⟩ ⟨rfl, (h₂ : e.Onward d₁ later later')⟩
            have hlater : e.Onward d later later' := hbehind.trans (h₁.trans h₂)
            dsimp only
            rw [h.1.hasStalled_eq hlater.1]
            split
            · exact .ok ⟨rfl, honward⟩
            · refine .ok ⟨?_, h.trans hlater⟩
              simp [Relocation.node_eq, htwin.start, hlater.1.lastStop, named_eq hname]

theorem Follows.parameters (hg : e.Follows g g') (h : e.Beside c c') :
    Outcome.Follows (e.Along e.nodes c) (g.parameters c) (g'.parameters c') := by
  rw [Grammar.parameters, Grammar.parameters]
  cases h.meeting with
  | finished hahead hahead' =>
      rw [peek?_of_nil hahead]
      rcases peek?_rest hahead' with hpeek' | ⟨separator, hpeek', hsemicolon, -⟩
      · rw [hpeek']
        exact .ok ⟨(Relocation.nodes_nil _).symm, h.onward⟩
      · rw [hpeek']
        dsimp only
        rw [Grammar.isSymbol_of_semicolon hsemicolon (by decide)]
        exact .ok ⟨(Relocation.nodes_nil _).symm, h.onward⟩
  | @both x y hpeek hpeek' htwin hnext htaken =>
      rw [hpeek, hpeek']
      dsimp only
      rw [htwin.isSymbol]
      split
      · have hrounds := hnext.follows_rounds (f := e.nodes) (R := e.Along e.nodes c.advance)
          [] fun nodes d d' honward => hg.parameterRound honward x y nodes
        rw [Relocation.nodes_nil] at hrounds
        refine hrounds.mono ?_
        rintro r r' ⟨hnodes, honward⟩
        exact ⟨hnodes, (h.onward_advance (ahead_ne_nil hpeek)).trans honward⟩
      · exact .ok ⟨(Relocation.nodes_nil _).symm, h.onward⟩

theorem follows_functionName (h : e.Beside c c') {keyword keyword' : Lexeme}
    (hkeyword : e.Twin keyword keyword') :
    Outcome.Follows (fun r r' => e.Twin r.1 r'.1 ∧ e.Onward c r.2 r'.2)
      (Grammar.functionName keyword c) (Grammar.functionName keyword' c') := by
  rw [Grammar.functionName, Grammar.functionName, hkeyword.text_beq (by decide)]
  split
  · cases h.meeting with
    | finished hahead =>
        rw [peek?_of_nil hahead]
        exact Outcome.follows_error _
    | @both x y hpeek hpeek' htwin hnext htaken =>
        rw [hpeek, hpeek']
        exact .ok ⟨htwin, h.onward_advance (ahead_ne_nil hpeek)⟩
  · exact .ok ⟨hkeyword, h.onward_skipPostfixOperator⟩

/-- A clause behind `where` is skipped up to its brace, which comes before the separator. -/
theorem Beside.follows_whereToBrace (h : e.Beside c c') (hwhere : c.atKeyword "where" = true) :
    Outcome.Follows (e.Onward c) c.skipToBrace c'.skipToBrace := by
  intro d hd
  refine h.followsUnless_skipToBrace d hd ?_
  rintro ⟨hrest, hnil⟩
  have hcontained := h.contained.resolve_left hrest
  obtain ⟨x, hpeek⟩ := Cursor.exists_peek?_of_next hwhere
  obtain ⟨ahead, hahead⟩ := Cursor.peek?_eq_some_iff.1 hpeek
  have hword : x.isKeyword "where" = true := (Cursor.next_of_peek? hpeek).symm.trans hwhere
  have hcursor : (Cursor.mk (x :: ahead) 0 c.sourceStop).atKeyword "where" = true := hword
  -- the keyword itself is skipped, so it does not matter where the lexeme before it ends
  have hsame : (Cursor.mk (x :: ahead) 0 c.sourceStop).skipToBrace = .ok d := by
    rw [← hd, Cursor.skipToBrace, Cursor.skipToBrace, Cursor.skipUntil, Cursor.skipUntil, hahead,
      Cursor.skipOpen, Cursor.skipOpen]
    simp [Lexeme.isOpener, Lexeme.isCloser, Lexeme.isSymbol, (Lexeme.isKeyword_iff.1 hword).1]
  rw [hahead, Grammar.isContained, Bool.and_eq_true, Bool.and_eq_true, Grammar.whereContained, hcursor,
    hsame] at hcontained
  have hfound : (!d.ahead.isEmpty) = true := hcontained.1.1
  rw [hnil] at hfound
  exact Bool.noConfusion hfound

theorem Onward.follows_where (h : e.Onward c d d') :
    Outcome.Follows (e.Onward c) (if d.atKeyword "where" then d.skipToBrace else pure d)
      (if d'.atKeyword "where" then d'.skipToBrace else pure d') := by
  rw [h.1.atKeyword_eq]
  split
  · rename_i hwhere
    exact (h.1.follows_whereToBrace hwhere).mono fun _ _ => h.trans
  · exact .ok h

theorem follows_skipFunctionType (h : e.Beside c c') :
    Outcome.Follows (e.Onward c) (Grammar.skipFunctionType c) (Grammar.skipFunctionType c') := by
  have heffects := h.takeWhile
    (fun l => l.isKeyword "async" || l.isKeyword "throws" || l.isKeyword "rethrows")
    (fun x y htwin => by rw [htwin.isKeyword, htwin.isKeyword, htwin.isKeyword])
    fun separator hsemicolon _ => by simp only [Grammar.isKeyword_of_semicolon hsemicolon, Bool.or_self]
  have hbehind := h.onward_takeWhile heffects
  rw [Grammar.skipFunctionType, Grammar.skipFunctionType]
  dsimp only
  rw [hbehind.1.atSymbol_eq (by decide)]
  split
  · rename_i harrow
    have honward := hbehind.trans (hbehind.1.onward_advance (ahead_ne_nil_of_next harrow))
    exact honward.1.follows_skipType.bind fun _ _ hlater => (honward.trans hlater).follows_where
  · exact hbehind.follows_where

theorem Follows.functionBody (hg : e.Follows g g') (h : e.Beside c c') :
    Outcome.Follows (e.Along (Option.map e.node) c) (g.functionBody c) (g'.functionBody c') := by
  rw [Grammar.functionBody, Grammar.functionBody, h.atSymbol_eq (by decide)]
  split
  · refine (hg.block h).bind ?_
    rintro ⟨body, later⟩ ⟨_, later'⟩ ⟨rfl, (hlater : e.Onward c later later')⟩
    exact .ok ⟨rfl, hlater⟩
  · exact .ok ⟨rfl, h.onward⟩

theorem Follows.function (hg : e.Follows g g') (h : e.Beside c c') {keyword keyword' : Lexeme}
    (hkeyword : e.Twin keyword keyword') (hahead : c.ahead ≠ []) (scope : Scope)
    (attributes : List Attribute) :
    Outcome.Follows (e.Along e.nodes c) (g.function scope attributes keyword c)
      (g'.function scope (attributes.map e.modifier) keyword' c') := by
  have honward := h.onward_advance hahead
  rw [Grammar.function, Grammar.function]
  refine (follows_functionName honward.1 hkeyword).bind ?_
  rintro ⟨name, c₁⟩ ⟨name', c₁'⟩ ⟨(hname : e.Twin name name'), (h₁ : e.Onward c.advance c₁ c₁')⟩
  refine h₁.1.follows_skipGenericParameters.bind ?_
  rintro c₂ c₂' h₂
  refine (hg.parameters h₂.1).bind ?_
  rintro ⟨parameters, c₃⟩ ⟨_, c₃'⟩ ⟨rfl, (h₃ : e.Onward c₂ c₃ c₃')⟩
  refine (follows_skipFunctionType h₃.1).bind ?_
  rintro c₄ c₄' h₄
  refine (hg.functionBody h₄.1).bind ?_
  rintro ⟨body, c₅⟩ ⟨_, c₅'⟩ ⟨rfl, (h₅ : e.Onward c₄ c₅ c₅')⟩
  have hlater : e.Onward c.advance c₅ c₅' := h₁.trans (h₂.trans (h₃.trans (h₄.trans h₅)))
  have hstop : c₅'.lastStop = e.offset c₅.lastStop := hlater.1.lastStop
  refine .ok ⟨?_, honward.trans hlater⟩
  cases body with
  | none => simp [Relocation.node_eq, hkeyword.start, hstop, hname.renamed, hname.span]
  | some body => simp [Relocation.node_eq, hkeyword.start, hstop, hname.renamed, hname.span]

/-! ### Types -/

/-- A type's name has as many lexemes. -/
theorem Beside.typeNameLength_eq (h : e.Beside c c') :
    typeNameLength c'.ahead = typeNameLength c.ahead ∧ typeNameLength c.ahead ≤ c.ahead.length := by
  induction hn : c.ahead.length using Nat.strongRecOn generalizing c c' with
  | ind n ih =>
    subst hn
    cases h.meeting with
    | finished hahead hahead' =>
        rw [hahead]
        refine ⟨?_, Nat.zero_le _⟩
        rcases peek?_rest hahead' with hpeek' | ⟨separator, hpeek', hsemicolon, -⟩
        · rw [Cursor.peek?, List.head?_eq_none_iff] at hpeek'
          rw [hpeek']
        · rw [Grammar.typeNameLength_of_peek? hpeek', Lexeme.isIdentifier, (Lexeme.isSymbol_iff.1 hsemicolon).1]
          rfl
    | @both x y hpeek hpeek' htwin hnext htaken =>
        rw [Grammar.typeNameLength_of_peek? hpeek, Grammar.typeNameLength_of_peek? hpeek',
          htwin.isIdentifier, hnext.atSymbol_eq (by decide)]
        split
        · split
          · rename_i hpoint
            have hbehind := hnext.advance (ahead_ne_nil_of_next hpoint)
            have htaken' := length_advance_lt (ahead_ne_nil_of_next hpoint)
            obtain ⟨hlength, hle⟩ := ih _ (Nat.lt_trans htaken' htaken) hbehind rfl
            exact ⟨by rw [hlength], by omega⟩
          · exact ⟨rfl, by omega⟩
        · exact ⟨rfl, Nat.zero_le _⟩

theorem follows_inheritanceRound (h : e.Onward c d d') :
    Outcome.Follows (e.Steps id (e.Along id c) c) (Grammar.inheritanceRound () d)
      (Grammar.inheritanceRound () d') := by
  rw [Grammar.inheritanceRound, Grammar.inheritanceRound]
  refine h.1.follows_skipType.bind ?_
  rintro later later' hlater
  rw [hlater.1.atSymbol_eq (by decide)]
  split
  · rename_i hcomma
    exact .ok ⟨rfl, h.trans (hlater.trans (hlater.1.onward_advance (ahead_ne_nil_of_next hcomma)))⟩
  · exact .ok ⟨rfl, h.trans hlater⟩

theorem follows_skipTypeHead (h : e.Beside c c') :
    Outcome.Follows (e.Onward c) (Grammar.skipTypeHead c) (Grammar.skipTypeHead c') := by
  rw [Grammar.skipTypeHead, Grammar.skipTypeHead]
  refine h.follows_skipGenericParameters.bind ?_
  rintro d d' honward
  rw [honward.1.atSymbol_eq (by decide)]
  split
  · rename_i hcolon
    have hbehind := honward.trans (honward.1.onward_advance (ahead_ne_nil_of_next hcolon))
    refine (hbehind.1.follows_rounds (f := id) (R := e.Along id d.advance) () fun _ _ _ hround =>
      follows_inheritanceRound hround).bind ?_
    rintro ⟨_, later⟩ ⟨_, later'⟩ ⟨-, (hlater : e.Onward d.advance later later')⟩
    exact (hbehind.trans hlater).follows_where
  · exact honward.follows_where

/-- A type declaration is read alike in both texts. -/
theorem Follows.typeDeclaration (hg : e.Follows g g') (h : e.Beside c c') {keyword keyword' : Lexeme}
    (hkeyword : e.Twin keyword keyword') (hkind : keyword.kind = .token .keyword)
    (hahead : c.ahead ≠ []) (attributes : List Attribute) :
    Outcome.Follows (e.Along e.nodes c) (g.typeDeclaration attributes keyword c)
      (g'.typeDeclaration (attributes.map e.modifier) keyword' c') := by
  have hfirst := h.onward_advance hahead
  obtain ⟨hlength, hle⟩ := hfirst.1.typeNameLength_eq
  have hnamed : e.Onward c.advance (c.advance.advanceBy (typeNameLength c.advance.ahead))
      (c'.advance.advanceBy (typeNameLength c.advance.ahead)) :=
    ⟨hfirst.1.advanceBy hle, (Cursor.Reaches.advanceBy c.advance _).length_le⟩
  rw [Grammar.typeDeclaration, Grammar.typeDeclaration]
  dsimp only
  rw [hlength, hfirst.1.hasStalled_eq hnamed.1]
  split
  · exact Outcome.follows_error _
  · rename_i hstalled
    have htaken : (c.advance.advanceBy (typeNameLength c.advance.ahead)).ahead.length <
        c.advance.ahead.length := by
      rw [Cursor.hasStalled, beq_iff_eq] at hstalled
      exact Nat.lt_of_le_of_ne hnamed.2 fun heq => hstalled heq.symm
    have hname := spelling_eq (hfirst.1.lexemesTo hnamed.1)
    have hstart := hfirst.1.here_eq (List.ne_nil_of_length_pos (Nat.zero_lt_of_lt htaken))
    have hstop := hnamed.1.lastStop
    refine (follows_skipTypeHead hnamed.1).bind ?_
    rintro c₁ c₁' h₁
    refine (h₁.1.follows_expectSymbol _ _).bind ?_
    rintro ⟨opener, c₂⟩ ⟨opener', c₂'⟩ hopening
    have hopener : e.Twin opener opener' := hopening.twin
    have h₂ : e.Onward c₁ c₂ c₂' := ⟨hopening.beside, Nat.le_of_lt hopening.taken⟩
    refine (hg.statements h₂.1 _ _).bind_follows ?_ ?_
    · rintro ⟨members, c₃⟩ (hover : e.Over c₃) r hr
      obtain ⟨r', hr', -⟩ := Outcome.exists_of_bind hr
      exact Beside.expectCloser_of_over hover _ _ _ hr'
    · rintro ⟨members, c₃⟩ ⟨_, c₃'⟩ ⟨rfl, (h₃ : e.Onward c₂ c₃ c₃')⟩
      refine (h₃.1.follows_expectCloser _ _ _).bind ?_
      rintro ⟨closer, c₄⟩ ⟨closer', c₄'⟩
        ⟨(hcloser : e.Twin closer closer'), (h₄ : e.Onward c₃ c₄ c₄')⟩
      refine .ok ⟨?_, hfirst.trans (hnamed.trans (h₁.trans (h₂.trans (h₃.trans h₄))))⟩
      simp [Relocation.node_eq, hkeyword.start, hkeyword.text_eq (by simp [hkind]), hopener.stop,
        hcloser.start, hcloser.stop, hname, hstart, hstop]

end SourceLint.Embedding
