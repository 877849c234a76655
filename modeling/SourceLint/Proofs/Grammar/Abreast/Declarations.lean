import SourceLint.Proofs.Grammar.Abreast.Expressions

/-!
# Declarations side by side

The heads of functions and types are read alike from two cursors that are abreast where the source
text is harmless: no semicolon that goes keeps names of parameters apart or a list of parameters
from its function, and none stands within angle brackets.
-/

namespace SourceLint.Grammar

open Node (SameOutline)

variable {gone : Lexeme → Bool} {levels : Nat} {before : List Lexeme} {c c' : Cursor} {x y : Lexeme}
variable {g g' : Grammar} {depth : Nat}

/-! ### Modifiers -/

theorem not_comma_of_modifier (hx : modifierWords.contains x.text = true) : x.isSymbol "," = false := by
  have hne : x.text ≠ "," := by
    intro htext
    rw [htext] at hx
    exact absurd hx (by decide)
  rw [Lexeme.isSymbol, beq_false_of_ne hne, Bool.and_false]

theorem Kept.atModifier_eq (h : Kept gone levels before c c' x y) : atModifier c' = atModifier c := by
  have hcontains : modifierWords.contains y.text = modifierWords.contains x.text :=
    h.alike.contains_text (by decide)
  rw [atModifier, atModifier, h.peek, h.peek', Cursor.peekAt?_one h.peek, Cursor.peekAt?_one h.peek']
  cases hword : modifierWords.contains x.text with
  | false =>
      rw [hword] at hcontains
      cases c.advance.peek? <;> cases c'.advance.peek?
      all_goals simp only [hcontains, hword, Bool.false_and]
  | true =>
      cases h.later.meeting with
      | finished hahead hahead' =>
          rw [Cursor.peek?, Cursor.peek?, hahead, hahead']
          rfl
      | dropped hdropped =>
          have hstays := h.later.stays (dangling_of_modifier hword)
          rw [Cursor.next_of_peek? hdropped.peek, hdropped.goes] at hstays
          exact absurd hstays Bool.noConfusion
      | @kept z w hkept =>
          rw [hkept.peek, hkept.peek', Cursor.peekAt?_two h.peek hkept.peek,
            Cursor.peekAt?_two h.peek' hkept.peek']
          dsimp only
          rw [hcontains, hkept.alike.kind]
          cases hkind : z.kind with
          | token kind =>
              cases kind with
              | identifier | string | comment => rfl
              | keyword => rw [hkept.alike.text_eq (by simp [hkind])]
              | other => rw [hkept.alike.beginsWith (by simp [hkind])]
          | punctuation =>
              dsimp only
              rw [hkept.alike.text_eq (by simp [hkind])]
              cases hopens : z.text == "(" with
              | false => rfl
              | true =>
                  have hsymbol : z.isSymbol "(" = true := by rw [Lexeme.isSymbol, hkind, hopens]; rfl
                  have hargument : c'.advance.advance.next
                    (fun l => ["set", "safe", "unsafe"].contains l.text) =
                      c.advance.advance.next fun l => ["set", "safe", "unsafe"].contains l.text :=
                    hkept.later.next_eq_of_stays
                      (hkept.later.stays (dangling_of_isSymbol hsymbol (by decide)))
                      fun _ _ halike => halike.contains_text (by decide)
                  rw [hkept.apart.eq (isSymbol_ne hsymbol (by decide)) (not_comma_of_modifier hword)]
                  rw [Cursor.next, Cursor.next] at hargument
                  rw [hargument]

theorem Kept.isSome_modifierKind? (h : Kept gone levels before c c' x y) :
    (modifierKind? c').isSome = (modifierKind? c).isSome := by
  rw [modifierKind?, modifierKind?, h.peek, h.peek']
  dsimp only
  rw [h.alike.isAttribute, h.alike.text_beq (by decide), h.atModifier_eq]
  split
  · split
    · rfl
    · rfl
  · split
    · rfl
    · rfl

theorem not_comma_of_modifierKind? (hpeek : c.peek? = some x) (hx : (modifierKind? c).isSome = true) :
    x.isSymbol "," = false := by
  rw [modifierKind?, hpeek] at hx
  dsimp only at hx
  split at hx
  · rename_i hattribute
    rw [Lexeme.isAttribute, Bool.and_eq_true, beq_iff_eq] at hattribute
    exact isSymbol_of_kind_ne (by simp [hattribute.1]) _
  · split at hx
    · rename_i hmodifier
      rw [atModifier, hpeek] at hmodifier
      split at hmodifier
      · rename_i hsome _
        obtain rfl := Option.some.inj hsome
        rw [Bool.and_eq_true] at hmodifier
        exact not_comma_of_modifier hmodifier.1
      · exact absurd hmodifier Bool.false_ne_true
    · exact absurd hx Bool.false_ne_true

/-- Both have taken what leads a statement: behind it there is no semicolon that goes, and no operator
unless nothing leads the statement. -/
structure LeadTaken (gone : Lexeme → Bool) (levels : Nat) (c c' later later' : Cursor) : Prop where
  onward : Onward gone levels c c' later later'
  stays : later.next gone = false
  isOperator : later.next Lexeme.isOperator = true → later = c ∧ later' = c'

theorem follows_modifiers (h : Abreast gone levels before c c') (hnext : c.next gone = false) :
    Outcome.Follows (fun r r' => LeadTaken gone levels c c' r.2 r'.2) (modifiers c) (modifiers c') := by
  refine follows_repeatRounds (S := fun _ middle _ middle' =>
    LeadTaken gone levels c c' middle middle') ?_
    ⟨.refl h, hnext, fun _ => ⟨rfl, rfl⟩⟩
  rintro attributes middle attributes' middle' - hstate
  right
  obtain ⟨before', habreast⟩ := hstate.onward.abreast
  rw [modifierRound, modifierRound]
  cases habreast.meeting with
  | finished hahead hahead' =>
      rw [modifierKind?, modifierKind?, Cursor.peek?, Cursor.peek?, hahead, hahead']
      exact .ok hstate
  | dropped hdropped =>
      have hstays := hstate.stays
      rw [Cursor.next_of_peek? hdropped.peek, hdropped.goes] at hstays
      exact absurd hstays Bool.noConfusion
  | @kept x y hkept =>
      have hsome := hkept.isSome_modifierKind?
      cases hkind : modifierKind? middle with
      | none =>
          rw [hkind, Option.isSome_none, Option.isSome_eq_false_iff, Option.isNone_iff_eq_none] at hsome
          rw [hsome]
          exact .ok hstate
      | some kind =>
          have hmodifier : (modifierKind? middle).isSome = true := by rw [hkind]; rfl
          obtain ⟨kind', hkind'⟩ := Option.isSome_iff_exists.1 (hsome.trans hmodifier)
          rw [hkind']
          refine (hkept.later.follows_skipAttachedGroup
            (hkept.spaced (not_comma_of_modifierKind? hkept.peek hmodifier))).and_eq.bind ?_
          rintro later later' ⟨hlater, heq, -⟩
          have hbehind := habreast.behind_attribute (by rw [hmodifier]; rfl) heq
          refine .ok ⟨⟨hstate.onward.trans (hkept.onward.trans hlater), hbehind.1, fun hoperator => ?_⟩,
            (hkept.passes'.trans_reaches hlater.reaches').2⟩
          exact absurd (hbehind.2.symm.trans hoperator) Bool.false_ne_true

/-! ### Blocks -/

theorem Follows.block (hg : Follows gone levels g g' depth) (h : Abreast gone levels before c c')
    (hroom : 2 * c'.ahead.length ≤ depth) :
    Outcome.Follows
      (fun r r' => Along gone levels c c' (fun node node' => SameOutline [node] [node']) r r' ∧
        c'.Passes r'.2) (g.block c) (g'.block c') := by
  rw [Grammar.block, Grammar.block]
  refine (h.follows_expectSymbol (by decide) _).bind ?_
  rintro ⟨opener, c₁⟩ ⟨opener', c₁'⟩ ⟨-, ⟨before₁, h₁⟩, honward₁, hpasses⟩
  have hlength := hpasses.2
  refine (hg.statements h₁ (by omega) _ _).bind ?_
  rintro ⟨statements, c₂⟩ ⟨statements', c₂'⟩ ⟨hstatements, honward₂⟩
  obtain ⟨_, h₂⟩ := honward₂.abreast
  refine (h₂.follows_expectCloser (by decide) opener opener').bind ?_
  rintro ⟨closer, c₃⟩ ⟨closer', c₃'⟩ ⟨-, -, honward₃, -⟩
  have honward := honward₂.trans honward₃
  exact .ok ⟨⟨.singleton rfl hstatements, honward₁.trans honward⟩,
    hpasses.trans_reaches honward.reaches'⟩

/-! ### Variables -/

theorem Abreast.follows_variablePattern (h : Abreast gone levels before c c') :
    Outcome.Follows (fun r r' => Onward gone levels c c' r.2 r'.2 ∧ c'.Passes r'.2)
      (variablePattern c) (variablePattern c') := by
  rw [variablePattern, variablePattern]
  cases h.meeting with
  | finished hahead =>
      rw [Cursor.peek?, hahead]
      exact Outcome.follows_error _
  | dropped hdropped =>
      rw [hdropped.peek]
      dsimp only
      rw [isSymbol_of_semicolon hdropped.semicolon (by decide), isWord_of_semicolon hdropped.semicolon]
      exact Outcome.follows_error _
  | @kept x y hkept =>
      rw [hkept.peek, hkept.peek']
      dsimp only
      rw [hkept.alike.isSymbol, hkept.alike.isWord]
      split
      · refine (hkept.follows_skipGroup.meets (Cursor.meets_skipGroup_passes hkept.peek)
          (Cursor.meets_skipGroup_passes hkept.peek')).bind ?_
        rintro later later' ⟨⟨hlater, -⟩, -, hpasses'⟩
        exact .ok ⟨hkept.onward.trans hlater, hpasses'⟩
      · split
        · exact .ok ⟨hkept.onward, hkept.passes'⟩
        · exact Outcome.follows_error _

/-- An opening brace on the same line comes next at both cursors or at none. -/
theorem Abreast.next_brace_eq (h : Abreast gone levels before c c') :
    c'.next (fun l => l.isSymbol "\x7b" && !l.isOnNewLine) =
      c.next fun l => l.isSymbol "\x7b" && !l.isOnNewLine := by
  refine h.next_eq (fun x y halike _ => ?_) (fun x hsemicolon => ?_) fun x ahead hfresh => ?_
  · rw [halike.isSymbol, halike.isOnNewLine]
  · rw [isSymbol_of_semicolon hsemicolon (by decide), Bool.false_and]
  · rw [hfresh.isSymbol (by decide), Bool.false_and]

theorem Follows.variableValue (hg : Follows gone levels g g' depth) (h : Abreast gone levels before c c')
    (hroom : 2 * c'.ahead.length ≤ depth) :
    Outcome.Follows (Along gone levels c c' SameOutline) (g.variableValue c) (g'.variableValue c') := by
  rw [Grammar.variableValue, Grammar.variableValue, h.atSymbol_eq (by decide), h.next_brace_eq]
  split
  · rename_i hequals
    obtain ⟨x, y, hkept, hx⟩ := h.kept_of_atSymbol hequals (by decide)
    refine (hg.value hkept hx (by omega) true).bind ?_
    rintro ⟨e, later⟩ ⟨e', later'⟩ ⟨he, hlater⟩
    have hpresent : e'.isPresent = e.isPresent := he.isPresent
    dsimp only
    rw [hpresent]
    split
    · exact .ok ⟨he.nodes, hlater⟩
    · exact Outcome.follows_error _
  · split
    · refine (hg.block h hroom).bind ?_
      rintro ⟨accessors, later⟩ ⟨accessors', later'⟩ ⟨hlater, -⟩
      exact .ok hlater
    · exact .ok ⟨.nil, .refl h⟩

theorem Follows.variableRound (hg : Follows gone levels g g' depth) (scope : Scope)
    (attributes attributes' : List Attribute) {nodes nodes' : List Node} (start start' : Nat)
    {middle middle' : Cursor} (h : ListState gone levels c c' nodes middle nodes' middle')
    (hroom : 2 * c'.ahead.length ≤ depth) :
    Outcome.Follows
      (Round.Pair (fun state later state' later' =>
        ListState gone levels c c' state.1 later state'.1 later')
        (Along gone levels c c' SameOutline) middle')
      (g.variableRound scope attributes (nodes, start) middle)
      (g'.variableRound scope attributes' (nodes', start') middle') := by
  obtain ⟨houtline, honward⟩ := h
  obtain ⟨_, h₀⟩ := honward.abreast
  rw [Grammar.variableRound, Grammar.variableRound]
  refine h₀.follows_variablePattern.bind ?_
  rintro ⟨name, c₁⟩ ⟨name', c₁'⟩ ⟨honward₁, hpasses⟩
  obtain ⟨_, h₁⟩ := honward₁.abreast
  refine h₁.follows_skipDeclaredType.bind fun c₂ c₂' honward₂ => ?_
  obtain ⟨_, h₂⟩ := honward₂.abreast
  have hlength := (honward.trans (honward₁.trans honward₂)).reaches'.length_le
  refine (hg.variableValue h₂ (by omega)).bind ?_
  rintro ⟨children, c₃⟩ ⟨children', c₃'⟩ ⟨hchildren, honward₃⟩
  obtain ⟨_, h₃⟩ := honward₃.abreast
  have hlater := honward.trans (honward₁.trans (honward₂.trans honward₃))
  have hpasses₃ := hpasses.trans_reaches (honward₂.trans honward₃).reaches'
  dsimp only
  rw [h₃.atSymbol_eq (by decide)]
  split
  · rename_i hcomma
    obtain ⟨x, y, hkept, -⟩ := h₃.kept_of_atSymbol hcomma (by decide)
    exact .ok ⟨⟨houtline.append (.singleton rfl hchildren), hlater.trans hkept.onward⟩,
      (hpasses₃.trans_reaches hkept.passes'.1).2⟩
  · exact .ok ⟨houtline.append (.singleton rfl hchildren), hlater⟩

theorem Follows.bindings (hg : Follows gone levels g g' depth)
    (hkept : Kept gone levels before c c' x y) (scope : Scope)
    (attributes attributes' : List Attribute) (hroom : 2 * c'.ahead.length ≤ depth) :
    Outcome.Follows (Along gone levels c c' SameOutline) (g.bindings scope attributes c)
      (g'.bindings scope attributes' c') :=
  follows_repeatRounds
    (S := fun state middle state' middle' => ListState gone levels c c' state.1 middle state'.1 middle')
    (fun _ _ _ _ _ hstate => .inr (hg.variableRound scope attributes attributes' _ _ hstate hroom))
    ⟨.nil, hkept.onward⟩

/-! ### Functions -/

theorem Follows.defaultValue (hg : Follows gone levels g g' depth) (h : Abreast gone levels before c c')
    (hroom : 2 * c'.ahead.length ≤ depth + 1) :
    Outcome.Follows (Along gone levels c c' SameOutline) (g.defaultValue c) (g'.defaultValue c') := by
  rw [Grammar.defaultValue, Grammar.defaultValue, h.atSymbol_eq (by decide)]
  split
  · rename_i hequals
    obtain ⟨x, y, hkept, hx⟩ := h.kept_of_atSymbol hequals (by decide)
    refine (hg.value hkept hx hroom true).bind ?_
    rintro ⟨e, later⟩ ⟨e', later'⟩ ⟨he, hlater⟩
    exact .ok ⟨he.nodes, hlater⟩
  · exact .ok ⟨.nil, .refl h⟩

/-- No words that name a parameter are there at a semicolon, which is taken. -/
theorem parameterRound_of_semicolon (hpeek : c.peek? = some x) (hx : x.isSymbol ";" = true)
    (opener : Lexeme) (nodes : List Node) :
    g.parameterRound opener nodes c = .ok (.again nodes, c.advance) := by
  obtain ⟨ahead, hahead⟩ := Cursor.peek?_eq_some_iff.1 hpeek
  have hword : ¬x.isWord = true := by
    rw [isWord_of_semicolon hx]
    exact Bool.false_ne_true
  have hcloses : x.isSymbol ")" = false := isSymbol_of_semicolon hx (by decide)
  have hcomma : x.isSymbol "," = false := isSymbol_of_semicolon hx (by decide)
  have htype : c.atSymbol ":" = false := by
    rw [Cursor.atSymbol, Cursor.next_of_peek? hpeek, isSymbol_of_semicolon hx (by decide)]
  have hvalue : c.atSymbol "=" = false := by
    rw [Cursor.atSymbol, Cursor.next_of_peek? hpeek, isSymbol_of_semicolon hx (by decide)]
  simp [parameterRound, hpeek, hahead, hcloses, hcomma, isCloser_of_semicolon hx,
    List.takeWhile_cons_of_neg hword, Cursor.advanceBy, Cursor.skipDeclaredType, htype,
      defaultValue, hvalue,
    Cursor.hasStalled, bind, Except.bind, pure, Except.pure]

/-- As many words name a parameter at both cursors. -/
theorem Kept.parameterWords (h : Abreast gone levels before c c')
    (hkept : Kept gone levels before c c' x y) (hharmless : parameterHarmless gone c = true) :
    (c'.ahead.takeWhile Lexeme.isWord).length = (c.ahead.takeWhile Lexeme.isWord).length ∧
      Onward gone levels c c' (c.advanceBy (c.ahead.takeWhile Lexeme.isWord).length)
        (c'.advanceBy (c.ahead.takeWhile Lexeme.isWord).length) := by
  refine h.takeWhile (fun _ _ halike => halike.isWord) (fun _ => isWord_of_semicolon) ?_
  intro before' later later' hlater _ hbehind hgone
  cases hword : x.isWord with
  | false =>
      have hword' : ¬x.isWord = true := by simp [hword]
      rw [hkept.ahead_eq, List.dropWhile_cons_of_neg hword'] at hbehind
      rw [Cursor.next_of_peek? (Cursor.peek?_eq_some_iff.2 ⟨_, hbehind⟩), hkept.stays] at hgone
      exact absurd hgone Bool.false_ne_true
  | true =>
      rw [parameterHarmless, hkept.next, hword, ← hbehind] at hharmless
      have hnext : later.ahead.head?.any gone = true := hgone
      rw [hnext, Bool.true_and, Bool.true_and, Bool.not_eq_true'] at hharmless
      rcases hlater.thinned.head?_behindSemicolons with hsemicolon | ⟨z, w, hz, hw, halike⟩
      · cases hpeek : later'.ahead.head? with
        | none => rw [Cursor.next, Cursor.peek?, hpeek, Option.any_none]
        | some w =>
            rw [hpeek, Option.all_some] at hsemicolon
            rw [Cursor.next, Cursor.peek?, hpeek, Option.any_some, isWord_of_semicolon hsemicolon]
      · rw [hz, Option.any_some] at hharmless
        rw [Cursor.next, Cursor.peek?, hw, Option.any_some, halike.isWord, hharmless]

theorem Follows.parameterRound (hg : Follows gone levels g g' depth) (opener opener' : Lexeme)
    {nodes nodes' : List Node} {middle middle' : Cursor}
    (h : ListState gone levels c c' nodes middle nodes' middle')
    (hharmless : parameterHarmless gone middle = true) (hroom : 2 * c'.ahead.length ≤ depth + 1) :
    (∃ more later, g.parameterRound opener nodes middle = .ok (.again more, later) ∧
      ListState gone levels c c' more later nodes' middle') ∨
    Outcome.Follows
      (Round.Pair (ListState gone levels c c') (Along gone levels c c' SameOutline) middle')
      (g.parameterRound opener nodes middle) (g'.parameterRound opener' nodes' middle') := by
  obtain ⟨houtline, honward⟩ := h
  obtain ⟨before, habreast⟩ := honward.abreast
  cases habreast.meeting with
  | finished hahead =>
      right
      rw [Grammar.parameterRound, Cursor.peek?, hahead]
      exact Outcome.follows_error _
  | dropped hdropped =>
      exact .inl ⟨_, _, parameterRound_of_semicolon hdropped.peek hdropped.semicolon opener nodes,
        houtline, honward.trans hdropped.onward⟩
  | @kept x y hkept =>
      right
      have halike := hkept.alike
      rw [Grammar.parameterRound, Grammar.parameterRound, hkept.peek, hkept.peek']
      dsimp only
      rw [halike.isSymbol, halike.isSymbol, halike.isCloser]
      split
      · exact .ok ⟨houtline, honward.trans hkept.onward⟩
      · split
        · exact .ok ⟨⟨houtline, honward.trans hkept.onward⟩, hkept.passes'.2⟩
        · split
          · exact Outcome.follows_error _
          · obtain ⟨hwords, honward₁⟩ := hkept.parameterWords habreast hharmless
            obtain ⟨_, h₁⟩ := honward₁.abreast
            rw [hwords]
            refine h₁.follows_skipDeclaredType.bind fun c₂ c₂' honward₂ => ?_
            obtain ⟨_, h₂⟩ := honward₂.abreast
            have hlength := (honward.trans (honward₁.trans honward₂)).reaches'.length_le
            refine (hg.defaultValue h₂ (by omega)).bind ?_
            rintro ⟨children, c₃⟩ ⟨children', c₃'⟩ ⟨hchildren, honward₃⟩
            have hlater := honward₁.trans (honward₂.trans honward₃)
            have heq := hlater.hasStalled_eq habreast (hkept.next.trans hkept.stays)
            dsimp only at hlater heq ⊢
            rw [heq]
            cases hstalled : middle.hasStalled c₃ with
            | true => exact .ok ⟨⟨houtline, honward.trans hkept.onward⟩, hkept.passes'.2⟩
            | false =>
                rw [hstalled] at heq
                exact .ok ⟨⟨houtline.append (.singleton rfl hchildren), honward.trans hlater⟩,
                  (hlater.reaches'.passes heq).2⟩

/-- No semicolon that goes keeps a list of parameters from its function, and none keeps the names of a
parameter apart. -/
structure ParametersHarmless (gone : Lexeme → Bool) (g : Grammar) (c : Cursor) : Prop where
  opens : c.next gone = true → (behindSemicolons? c.ahead).any (fun l => l.isSymbol "(") = false
  names : ∀ opener, c.peek? = some opener → opener.isSymbol "(" = true →
    ∀ place ∈ roundsThrough (g.parameterRound opener) c.advance.ahead [] c.advance,
      parameterHarmless gone place.2 = true

theorem Follows.parameters (hg : Follows gone levels g g' depth) (h : Abreast gone levels before c c')
    (hharmless : ParametersHarmless gone g c) (hroom : 2 * c'.ahead.length ≤ depth + 1) :
    Outcome.Follows (Along gone levels c c' SameOutline) (g.parameters c) (g'.parameters c') := by
  have hnone : Outcome.Follows (Along gone levels c c' SameOutline) (.ok ([], c)) (.ok ([], c')) :=
    .ok ⟨.nil, .refl h⟩
  rw [Grammar.parameters, Grammar.parameters]
  cases h.meeting with
  | finished hahead hahead' =>
      rw [Cursor.peek?, Cursor.peek?, hahead, hahead']
      exact hnone
  | @dropped x hdropped =>
      have hopens := hharmless.opens ((Cursor.next_of_peek? hdropped.peek).trans hdropped.goes)
      rw [hdropped.peek]
      dsimp only
      rw [isSymbol_of_semicolon hdropped.semicolon (by decide)]
      cases hpeek : c'.peek? with
      | none => exact hnone
      | some y =>
          have hy : y.isSymbol "(" = false := by
            rcases h.thinned.head?_behindSemicolons with hsemicolon | ⟨z, w, hz, hw, halike⟩
            · rw [Cursor.peek?] at hpeek
              rw [hpeek, Option.all_some] at hsemicolon
              exact isSymbol_of_semicolon hsemicolon (by decide)
            · obtain rfl : w = y := Option.some.inj (hw.symm.trans hpeek)
              rw [hz, Option.any_some] at hopens
              rw [halike.isSymbol, hopens]
          dsimp only
          rw [hy]
          exact hnone
  | @kept x y hkept =>
      have hlength := hkept.passes'.2
      rw [hkept.peek, hkept.peek']
      dsimp only
      rw [hkept.alike.isSymbol]
      split
      · rename_i hopens
        refine (follows_repeatRounds (S := ListState gone levels c.advance c'.advance)
          (R := Along gone levels c.advance c'.advance SameOutline) ?_ ⟨.nil, .refl hkept.later⟩).mono ?_
        · intro nodes middle nodes' middle' hplace hstate
          exact hg.parameterRound x y hstate (hharmless.names x hkept.peek hopens _ hplace) (by omega)
        · exact fun _ _ hlist => ⟨hlist.1, hkept.onward.trans hlist.2⟩
      · exact hnone

theorem Kept.follows_functionName (h : Kept gone levels before c c' x y)
    (hkeyword : x.kind = .token .keyword) :
    Outcome.Follows (fun r r' => Onward gone levels c c' r.2 r'.2) (functionName x c.advance)
      (functionName y c'.advance) := by
  rw [functionName, functionName, h.alike.text_beq (by decide)]
  split
  · rename_i hfunc
    have hbefore : Dangling (x :: before) := by
      refine dangling_of_keyword hkeyword ?_
      rw [beq_iff_eq.1 hfunc]
      decide
    cases h.later.meeting with
    | finished hahead =>
        rw [Cursor.peek?, hahead]
        exact Outcome.follows_error _
    | dropped hdropped =>
        have hstays := h.later.stays hbefore
        rw [Cursor.next_of_peek? hdropped.peek, hdropped.goes] at hstays
        exact absurd hstays Bool.noConfusion
    | kept hkept =>
        rw [hkept.peek, hkept.peek']
        exact .ok (h.onward.trans hkept.onward)
  · have hspaced := h.spaced (isSymbol_of_kind_ne (by simp [hkeyword]) _)
    rcases h.later.skipPostfixOperator hspaced with ⟨-, hskip, hskip'⟩ | ⟨_, _, hkept, -, hskip, hskip'⟩
    · rw [hskip, hskip']
      exact .ok h.onward
    · rw [hskip, hskip']
      exact .ok (h.onward.trans hkept.onward)

/-- The requirements behind `where`, up to the opening brace. -/
theorem Abreast.follows_whereToBrace (h : Abreast gone levels before c c') :
    Outcome.Follows (Onward gone levels c c') (if c.atKeyword "where" then c.skipToBrace else .ok c)
      (if c'.atKeyword "where" then c'.skipToBrace else .ok c') := by
  rw [h.atKeyword_eq (by decide)]
  split
  · exact h.follows_skipToBrace
  · exact .ok (.refl h)

theorem Abreast.effects (h : Abreast gone levels before c c') {test : Lexeme → Bool}
    (htest : test = fun l => l.isKeyword "async" || l.isKeyword "throws" || l.isKeyword "rethrows") :
    (c'.ahead.takeWhile test).length = (c.ahead.takeWhile test).length ∧
      Onward gone levels c c' (c.advanceBy (c.ahead.takeWhile test).length)
        (c'.advanceBy (c.ahead.takeWhile test).length) := by
  subst htest
  refine h.takeWhile (fun x y halike => ?_) (fun x hsemicolon => ?_) ?_
  · simp only [halike.isKeyword]
  · simp only [isKeyword_of_semicolon hsemicolon, Bool.or_self]
  · intro before' later later' hlater _ _ hgone
    cases hlater.meeting with
    | finished hahead =>
        rw [Cursor.next_of_nil hahead] at hgone
        exact absurd hgone Bool.false_ne_true
    | kept hkept =>
        rw [hkept.next, hkept.stays] at hgone
        exact absurd hgone Bool.false_ne_true
    | dropped hdropped =>
        cases hahead : later'.ahead with
        | nil => exact Cursor.next_of_nil hahead
        | cons y ahead =>
            have hfresh : Fresh (y :: ahead) := hahead ▸ hdropped.fresh
            rw [Cursor.next_of_peek? (Cursor.peek?_eq_some_iff.2 ⟨ahead, hahead⟩),
              hfresh.isKeyword (by decide), hfresh.isKeyword (by decide), hfresh.isKeyword (by decide)]
            rfl

theorem Abreast.follows_skipFunctionType (h : Abreast gone levels before c c') :
    Outcome.Follows (Onward gone levels c c') (skipFunctionType c) (skipFunctionType c') := by
  obtain ⟨heffects, honward₁⟩ := h.effects rfl
  rw [skipFunctionType, skipFunctionType]
  dsimp only
  rw [heffects]
  generalize c.advanceBy _ = c₁ at honward₁ ⊢
  generalize c'.advanceBy _ = c₁' at honward₁ ⊢
  obtain ⟨_, h₁⟩ := honward₁.abreast
  rw [h₁.atSymbol_eq (by decide)]
  split
  · rename_i harrow
    obtain ⟨x, y, hkept, hx⟩ := h₁.kept_of_atSymbol harrow (by decide)
    have hannounces : announcesType x = true := by rw [announcesType, hx, Bool.or_true]; rfl
    refine (hkept.follows_skipType (dangling_of_isSymbol hx (by decide))
      (hkept.later.typeSpaced (hkept.spaced (isSymbol_ne hx (by decide)))) hannounces).bind ?_
    rintro c₂ c₂' ⟨honward₂, -⟩
    obtain ⟨_, h₂⟩ := honward₂.abreast
    exact h₂.follows_whereToBrace.mono fun _ _ hlater =>
      honward₁.trans (hkept.onward.trans (honward₂.trans hlater))
  · exact h₁.follows_whereToBrace.mono fun _ _ hlater => honward₁.trans hlater

/-- The body of a function is a block, whose nodes become nodes of the function. -/
theorem Follows.functionBody (hg : Follows gone levels g g' depth) (h : Abreast gone levels before c c')
    (hroom : 2 * c'.ahead.length ≤ depth) :
    Outcome.Follows (Along gone levels c c' fun body body' =>
        SameOutline ((body.map Node.children).getD []) ((body'.map Node.children).getD []))
      (g.functionBody c) (g'.functionBody c') := by
  rw [Grammar.functionBody, Grammar.functionBody, h.atSymbol_eq (by decide)]
  split
  · refine (hg.block h hroom).bind ?_
    rintro ⟨body, later⟩ ⟨body', later'⟩ ⟨⟨hbody, hlater⟩, -⟩
    exact .ok ⟨hbody.of_singleton.2, hlater⟩
  · exact .ok ⟨.nil, .refl h⟩

/-- What stands in the head of a function is harmless. -/
theorem functionHarmless_parts {named : Lexeme × Cursor} (hname : functionName x c = .ok named)
    (h : functionHarmless gone g x c = true) :
    genericsHarmless gone named.2 = true ∧
      ∀ later, named.2.skipGenericParameters = .ok later → ParametersHarmless gone g later := by
  rw [functionHarmless, hname] at h
  simp only [Except.toOption, Option.all_some, Bool.and_eq_true] at h
  refine ⟨h.1, fun later hlater => ?_⟩
  have hparts := h.2
  rw [hlater] at hparts
  simp only [Option.all_some, Bool.and_eq_true, Bool.not_eq_true', Bool.and_eq_false_imp] at hparts
  refine ⟨hparts.1, fun opener hpeek hopens place hplace => ?_⟩
  have hrounds := hparts.2
  rw [hpeek, Option.all_some, hopens, Bool.not_true, Bool.false_or, List.all_eq_true] at hrounds
  exact hrounds place hplace

theorem Follows.function (hg : Follows gone levels g g' depth) (hkept : Kept gone levels before c c' x y)
    (hkeyword : x.kind = .token .keyword) (hword : x.text ∈ functionWords) (scope : Scope)
    (attributes attributes' : List Attribute) (hroom : 2 * c'.ahead.length ≤ depth) :
    Outcome.Follows (Along gone levels c c' SameOutline) (g.function scope attributes x c)
      (g'.function scope attributes' y c') := by
  have hharmless : functionHarmless gone g x c.advance = true := by
    obtain ⟨n, hlevel, rfl⟩ := hg.level
    have hbehind := hkept.later.behind hlevel
    have hcontains : functionWords.contains x.text = true := List.contains_iff_mem.2 hword
    rw [harmlessBehind, hkeyword, hcontains, Bool.and_eq_true] at hbehind
    simp only [bne_self_eq_false, Bool.not_true, Bool.false_or, Bool.and_eq_true] at hbehind
    exact hbehind.2.1
  rw [Grammar.function, Grammar.function]
  refine (hkept.follows_functionName hkeyword).and_eq.bind ?_
  rintro ⟨name, c₁⟩ ⟨name', c₁'⟩ ⟨honward₁, hname, -⟩
  obtain ⟨hgenerics, hbehind⟩ := functionHarmless_parts hname hharmless
  obtain ⟨_, h₁⟩ := honward₁.abreast
  refine (h₁.follows_skipGenericParameters hgenerics).and_eq.bind ?_
  rintro c₂ c₂' ⟨honward₂, hskip, -⟩
  obtain ⟨_, h₂⟩ := honward₂.abreast
  have hlength₂ := (honward₁.trans honward₂).reaches'.length_le
  refine (hg.parameters h₂ (hbehind _ hskip) (by omega)).bind ?_
  rintro ⟨parameters, c₃⟩ ⟨parameters', c₃'⟩ ⟨hparameters, honward₃⟩
  obtain ⟨_, h₃⟩ := honward₃.abreast
  refine h₃.follows_skipFunctionType.bind fun c₄ c₄' honward₄ => ?_
  obtain ⟨_, h₄⟩ := honward₄.abreast
  have honward := honward₁.trans (honward₂.trans (honward₃.trans honward₄))
  have hlength₄ := honward.reaches'.length_le
  refine (hg.functionBody h₄ (by omega)).bind ?_
  rintro ⟨body, c₅⟩ ⟨body', c₅'⟩ ⟨hbody, honward₅⟩
  exact .ok ⟨.singleton rfl (hparameters.append hbody), honward.trans honward₅⟩

/-! ### Types -/

/-- As many lexemes name a type at both cursors. -/
theorem Abreast.typeNameLength (h : Abreast gone levels before c c') (hnext : c.next gone = false) :
    Grammar.typeNameLength c'.ahead = Grammar.typeNameLength c.ahead ∧
      Onward gone levels c c' (c.advanceBy (Grammar.typeNameLength c.ahead))
        (c'.advanceBy (Grammar.typeNameLength c.ahead)) := by
  induction hlength : c.ahead.length using Nat.strongRecOn generalizing before c c' with
  | _ n ih =>
    subst hlength
    cases h.meeting with
    | finished hahead hahead' =>
        rw [hahead, hahead']
        exact ⟨rfl, .refl h⟩
    | dropped hdropped =>
        rw [Cursor.next_of_peek? hdropped.peek, hdropped.goes] at hnext
        exact absurd hnext Bool.noConfusion
    | @kept x y hkept =>
        rw [typeNameLength_of_peek? hkept.peek, typeNameLength_of_peek? hkept.peek',
          hkept.alike.isIdentifier, hkept.later.atSymbol_eq (by decide)]
        split
        · split
          · rename_i hpoint
            obtain ⟨point, point', hkept', hx⟩ := hkept.later.kept_of_atSymbol hpoint (by decide)
            have hpasses := (Cursor.Passes.advance hkept.peek).trans_reaches hkept'.onward.reaches
            obtain ⟨heq, honward⟩ := ih _ hpasses.2 hkept'.later
              (hkept'.later.stays (dangling_of_isSymbol hx (by decide))) rfl
            rw [heq]
            exact ⟨rfl, hkept.onward.trans (hkept'.onward.trans honward)⟩
          · exact ⟨rfl, hkept.onward⟩
        · exact ⟨rfl, .refl h⟩

/-- Behind a comma or a colon a type stands right there at neither cursor when it does not at the first
one. -/
theorem Abreast.typeSpaced_of_next (h : Abreast gone levels before c c')
    (hnext : c.next (fun l => isAttachedAngle l || l.isPostfixOperator) = false) : TypeSpaced c c' := by
  cases h.meeting with
  | finished hahead hahead' =>
      exact ⟨by rw [Cursor.next_of_nil hahead, Cursor.next_of_nil hahead'],
        by rw [Cursor.next_of_nil hahead, Cursor.next_of_nil hahead']⟩
  | @kept x y hkept =>
      rw [hkept.next, Bool.or_eq_false_iff] at hnext
      refine ⟨?_, ?_⟩
      · rw [hkept.next, hkept.next', hnext.1]
        rcases hkept.apart with hapart | ⟨hcomma, -⟩ | ⟨-, hapart⟩
        · rw [isAttachedAngle, hkept.alike.isAngle, hapart]
          exact hnext.1
        · rw [isAttachedAngle, hkept.alike.isAngle, isAngle_of_symbol (.inl hcomma), Bool.false_and]
        · rw [isAttachedAngle, hapart, Bool.not_true, Bool.and_false]
      · rw [hkept.next, hkept.next', hnext.2]
        rcases hkept.apart with hapart | ⟨hcomma, -⟩ | ⟨-, hapart⟩
        · rw [hkept.alike.isPostfixOperator hapart]
          exact hnext.2
        · exact isPostfixOperator_of_comma ((hkept.alike.isSymbol ",").trans hcomma)
        · exact Lexeme.isPostfixOperator_of_isApart hapart
  | @dropped x hdropped =>
      rw [Cursor.next_of_peek? hdropped.peek, Bool.or_eq_false_iff] at hnext
      refine ⟨?_, ?_⟩
      · rw [Cursor.next_of_peek? hdropped.peek, hnext.1]
        cases hahead : c'.ahead with
        | nil => exact Cursor.next_of_nil hahead
        | cons y ahead =>
            have hfresh : Fresh (y :: ahead) := hahead ▸ hdropped.fresh
            rw [Cursor.next_of_peek? (Cursor.peek?_eq_some_iff.2 ⟨ahead, hahead⟩), isAttachedAngle,
              hfresh.isAngle, Bool.false_and]
      · rw [Cursor.next_of_peek? hdropped.peek, hnext.2]
        cases hahead : c'.ahead with
        | nil => exact Cursor.next_of_nil hahead
        | cons y ahead =>
            have hfresh : Fresh (y :: ahead) := hahead ▸ hdropped.fresh
            rw [Cursor.next_of_peek? (Cursor.peek?_eq_some_iff.2 ⟨ahead, hahead⟩),
              hfresh.isPostfixOperator]

/-- A type that a type inherits from comes next at two cursors. -/
structure InheritanceState (gone : Lexeme → Bool) (levels : Nat) (c c' middle middle' : Cursor) :
    Prop where
  abreast : ∃ before, Abreast gone levels before middle middle' ∧ Dangling before
  harmless : typeHarmless gone middle = true
  reaches : c.Reaches middle
  reaches' : c'.Reaches middle'

theorem Kept.inheritanceState (h : Kept gone levels before c c' x y)
    (hx : x.isSymbol ":" = true ∨ x.isSymbol "," = true) :
    InheritanceState gone levels c c' c.advance c'.advance := by
  have hannounces : announcesType x = true := by
    rcases hx with hx | hx
    all_goals simp [announcesType, hx]
  have hdangling : Dangling (x :: before) := by
    rcases hx with hx | hx
    all_goals exact dangling_of_isSymbol hx (by decide)
  have hbehind := h.later.behind (Nat.zero_le _)
  rw [harmlessBehind, hannounces, Bool.not_true, Bool.false_or, Bool.and_eq_true] at hbehind
  exact ⟨⟨_, h.later, hdangling⟩, hbehind.1, .advance c, .advance c'⟩

theorem InheritanceState.round {middle middle' : Cursor}
    (h : InheritanceState gone levels c c' middle middle')
    (hnext : middle.next (fun l => isAttachedAngle l || l.isPostfixOperator) = false) :
    Outcome.Follows
      (Round.Pair (fun _ later _ later' => InheritanceState gone levels c c' later later')
        (fun r r' : Unit × Cursor => Onward gone levels c c' r.2 r'.2) middle')
      (inheritanceRound () middle) (inheritanceRound () middle') := by
  obtain ⟨before, habreast, hdangling⟩ := h.abreast
  rw [inheritanceRound, inheritanceRound]
  refine (habreast.follows_skipType hdangling (habreast.typeSpaced_of_next hnext) h.harmless).bind ?_
  rintro later later' ⟨hlater, -⟩
  obtain ⟨_, habreast'⟩ := hlater.abreast
  rw [habreast'.atSymbol_eq (by decide)]
  split
  · rename_i hcomma
    obtain ⟨x, y, hkept, hx⟩ := habreast'.kept_of_atSymbol hcomma (by decide)
    have hstate := hkept.inheritanceState (.inr hx)
    refine .ok ⟨⟨hstate.abreast, hstate.harmless, h.reaches.trans (hlater.reaches.trans hstate.reaches),
      h.reaches'.trans (hlater.reaches'.trans hstate.reaches')⟩, ?_⟩
    exact (Cursor.Passes.of_reaches hlater.reaches' hkept.passes').2
  · exact .ok ⟨hlater.abreast, h.reaches.trans hlater.reaches, h.reaches'.trans hlater.reaches'⟩

/-- What stands in the head of a type behind its name is harmless. -/
theorem typeHeadHarmless_parts
    (h : typeHeadHarmless gone c = true) :
    genericsHarmless gone (c.advanceBy (typeNameLength c.ahead)) = true ∧
      ∀ later, (c.advanceBy (typeNameLength c.ahead)).skipGenericParameters = .ok later →
        later.atSymbol ":" = true →
        ∀ place ∈ roundsThrough inheritanceRound later.advance.ahead () later.advance,
          place.2.next (fun l => isAttachedAngle l || l.isPostfixOperator) = false := by
  rw [typeHeadHarmless, Bool.and_eq_true] at h
  refine ⟨h.1, fun later hlater hcolon place hplace => ?_⟩
  have htypes := h.2
  rw [hlater, Except.toOption, Option.all_some, hcolon, Bool.not_true, Bool.false_or, List.all_eq_true]
    at htypes
  exact Bool.not_eq_true' _ ▸ htypes place hplace

theorem Abreast.follows_skipTypeHead (h : Abreast gone levels before c c')
    (hgenerics : genericsHarmless gone c = true)
    (htypes : ∀ later, c.skipGenericParameters = .ok later → later.atSymbol ":" = true →
      ∀ place ∈ roundsThrough inheritanceRound later.advance.ahead () later.advance,
        place.2.next (fun l => isAttachedAngle l || l.isPostfixOperator) = false) :
    Outcome.Follows (Onward gone levels c c') (skipTypeHead c) (skipTypeHead c') := by
  rw [skipTypeHead, skipTypeHead]
  refine (h.follows_skipGenericParameters hgenerics).and_eq.bind ?_
  rintro c₁ c₁' ⟨honward₁, hskip, -⟩
  obtain ⟨_, h₁⟩ := honward₁.abreast
  rw [h₁.atSymbol_eq (by decide)]
  split
  · rename_i hcolon
    obtain ⟨x, y, hkept, hx⟩ := h₁.kept_of_atSymbol hcolon (by decide)
    refine Outcome.Follows.bind (R := fun r r' : Unit × Cursor => Onward gone levels c₁ c₁' r.2 r'.2)
      (follows_repeatRounds (S := fun _ middle _ middle' =>
        InheritanceState gone levels c₁ c₁' middle middle')
        ?_ (hkept.inheritanceState (.inl hx))) ?_
    · intro _ middle _ middle' hplace hstate
      exact .inr (hstate.round (htypes _ hskip hcolon _ hplace))
    · rintro ⟨⟨⟩, c₂⟩ ⟨⟨⟩, c₂'⟩ honward₂
      obtain ⟨_, h₂⟩ := honward₂.abreast
      exact h₂.follows_whereToBrace.mono fun _ _ hlater => honward₁.trans (honward₂.trans hlater)
  · exact h₁.follows_whereToBrace.mono fun _ _ hlater => honward₁.trans hlater

/-- No type has its name at a semicolon. -/
theorem typeDeclaration_of_semicolon {z : Lexeme} (hpeek : c.advance.peek? = some z)
    (hz : z.isSymbol ";" = true) (attributes : List Attribute) :
    g.typeDeclaration attributes x c = .error (.fault (.expected .typeName c.advance.here)) := by
  have hidentifier : z.isIdentifier = false := by
    rw [Lexeme.isIdentifier, (Lexeme.isSymbol_iff.1 hz).1]
    rfl
  have hlength : typeNameLength c.advance.ahead = 0 := by
    rw [typeNameLength_of_peek? hpeek, hidentifier, if_neg Bool.false_ne_true]
  rw [typeDeclaration]
  dsimp only
  rw [hlength, Cursor.advanceBy, Cursor.hasStalled, BEq.rfl, if_pos rfl]
  rfl

theorem Follows.typeDeclaration (hg : Follows gone levels g g' depth)
    (hkept : Kept gone levels before c c' x y)
    (hkeyword : x.kind = .token .keyword) (hword : x.text ∈ typeWords)
    (attributes attributes' : List Attribute) (hroom : 2 * c'.ahead.length ≤ depth) :
    Outcome.Follows (Along gone levels c c' SameOutline) (g.typeDeclaration attributes x c)
      (g'.typeDeclaration attributes' y c') := by
  have hharmless : typeHeadHarmless gone c.advance = true := by
    have hbehind := hkept.later.behind (Nat.zero_le _)
    have hcontains : typeWords.contains x.text = true := List.contains_iff_mem.2 hword
    rw [harmlessBehind, hkeyword, hcontains, Bool.and_eq_true] at hbehind
    simp only [bne_self_eq_false, Bool.not_true, Bool.false_or, Bool.and_eq_true] at hbehind
    exact hbehind.2.2
  obtain ⟨hgenerics, htypes⟩ := typeHeadHarmless_parts hharmless
  cases hnext : c.advance.next gone with
  | true =>
      cases hkept.later.meeting with
      | finished hahead =>
          rw [Cursor.next_of_nil hahead] at hnext
          exact absurd hnext Bool.false_ne_true
      | kept hkept' =>
          rw [hkept'.next, hkept'.stays] at hnext
          exact absurd hnext Bool.false_ne_true
      | dropped hdropped =>
          rw [typeDeclaration_of_semicolon hdropped.peek hdropped.semicolon]
          exact Outcome.follows_error _
  | false =>
      obtain ⟨hname, honward₁⟩ := hkept.later.typeNameLength hnext
      have hstalled := honward₁.hasStalled_eq hkept.later hnext
      rw [Grammar.typeDeclaration, Grammar.typeDeclaration]
      dsimp only
      rw [hname, hstalled]
      split
      · exact Outcome.follows_error _
      · generalize c.advance.advanceBy _ = c₁ at honward₁ hgenerics htypes ⊢
        generalize c'.advance.advanceBy _ = c₁' at honward₁ ⊢
        obtain ⟨_, h₁⟩ := honward₁.abreast
        have hbegins := hkept.onward.trans honward₁
        refine (h₁.follows_skipTypeHead hgenerics htypes).bind fun c₂ c₂' honward₂ => ?_
        obtain ⟨_, h₂⟩ := honward₂.abreast
        refine (h₂.follows_expectSymbol (by decide) _).bind ?_
        rintro ⟨opener, c₃⟩ ⟨opener', c₃'⟩ ⟨-, ⟨_, h₃⟩, honward₃, hpasses⟩
        have hlength := (Cursor.Passes.of_reaches (hbegins.trans honward₂).reaches' hpasses).2
        refine (hg.statements h₃ (by omega) _ _).bind ?_
        rintro ⟨members, c₄⟩ ⟨members', c₄'⟩ ⟨hmembers, honward₄⟩
        obtain ⟨_, h₄⟩ := honward₄.abreast
        refine (h₄.follows_expectCloser (by decide) opener opener').bind ?_
        rintro ⟨closer, c₅⟩ ⟨closer', c₅'⟩ ⟨-, -, honward₅, -⟩
        refine .ok ⟨.singleton ?_ hmembers, ?_⟩
        · exact congrArg typeKind (hkept.alike.text_eq (by simp [hkeyword]))
        · exact hbegins.trans (honward₂.trans (honward₃.trans (honward₄.trans honward₅)))

end SourceLint.Grammar
