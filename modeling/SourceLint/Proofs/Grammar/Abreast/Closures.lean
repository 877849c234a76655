import SourceLint.Proofs.Grammar.Abreast.Groups

/-!
# Closures side by side

A group behind an opening brace is a capture list, and the lexemes behind it are a signature, in both
readings or in neither. A semicolon never stands in a signature, so none goes from one.
-/

namespace SourceLint.Grammar

open Node (SameOutline)

variable {gone : Lexeme → Bool} {levels depth : Nat} {before lexemes others : List Lexeme}
    {c c' : Cursor} {x y : Lexeme} {g g' : Grammar}

/-! ### Signatures of closures -/

/-- The number of lexemes of the signature that follows the first group, with `depth` groups open. -/
def signatureBehindGroup? (depth : Nat) (lexemes : List Lexeme) : Option Nat :=
  (groupLength? depth lexemes).bind fun n => signatureLength? (lexemes.drop n)

theorem signatureBehindGroup?_cons (depth : Nat) (x : Lexeme) (lexemes : List Lexeme) :
    signatureBehindGroup? depth (x :: lexemes) =
      if x.isOpener then signatureBehindGroup? (depth + 1) lexemes
      else if x.isCloser then
        if depth = 0 then none
        else if depth = 1 then signatureLength? lexemes
        else signatureBehindGroup? (depth - 1) lexemes
      else signatureBehindGroup? depth lexemes := by
  have hmap : ∀ depth, ((groupLength? depth lexemes).map (· + 1)).bind
      (fun n => signatureLength? ((x :: lexemes).drop n)) = signatureBehindGroup? depth lexemes := by
    intro depth
    rw [Option.bind_map]
    rfl
  rw [signatureBehindGroup?, groupLength?.eq_def]
  dsimp only
  split
  · exact hmap _
  · split
    · match depth with
      | 0 => rfl
      | 1 => rfl
      | depth + 2 => exact hmap _
    · exact hmap _

/-- A group is a capture list with the semicolons that go just when it is one without them. -/
theorem Thinned.signatureBehindGroup?_eq {sourceStop : Nat} (h : Thinned gone before lexemes others)
    (hharmless : HarmlessFrom gone levels sourceStop before lexemes) (depth : Nat) :
    signatureBehindGroup? depth others = signatureBehindGroup? depth lexemes := by
  induction h generalizing depth with
  | nil => rfl
  | keep hgone halike hapart hrest ih =>
      simp only [signatureBehindGroup?_cons, halike.isOpener, halike.isCloser, ih hharmless.tail,
        hrest.signatureLength?_eq hharmless.tail]
  | @drop before lexemes others x hgone hsemicolon hline hrest ih =>
      have hopener : x.isOpener = false := by
        simp [Lexeme.isOpener, isSymbol_of_semicolon hsemicolon]
      rw [signatureBehindGroup?_cons, hopener, isCloser_of_semicolon hsemicolon, ih hharmless.tail]
      rfl

/-- Lexemes that are alike name the same parameters when those behind them do. -/
theorem sameOutline_signatureParameters (halike : x.Alike y)
    (hrest : ∀ state, SameOutline (signatureParameters state lexemes) (signatureParameters state others))
    (state : SignatureState) :
    SameOutline (signatureParameters state (x :: lexemes))
      (signatureParameters state (y :: others)) := by
  rw [signatureParameters, signatureParameters]
  simp only [halike.isSymbol, halike.isWord]
  split
  · exact hrest _
  · split
    · exact hrest _
    · split
      · exact hrest _
      · split
        · exact hrest _
        · split
          · rw [halike.text_beq (by decide)]
            split
            · exact hrest _
            · exact (SameOutline.singleton rfl .nil).append (hrest _)
          · exact hrest _

/-- A signature begins with a lexeme that stays. -/
theorem Abreast.kept_of_signature {n : Nat} (h : Abreast gone levels before c c')
    (hlength : signatureLength? c.ahead = some n) :
    ∃ x y, Kept gone levels before c c' x y ∧ ∀ m, n = m + 1 →
      signatureLength? c.advance.ahead = some m := by
  cases h.meeting with
  | finished hahead =>
      rw [hahead] at hlength
      cases hlength
  | @kept x y hkept =>
      refine ⟨x, y, hkept, fun m hm => ?_⟩
      rw [hkept.ahead_eq] at hlength
      rcases signatureLength?_eq_some hlength with rfl | ⟨m', rfl, hm'⟩
      · exact absurd hm (Nat.succ_ne_zero m).symm
      · rw [hm', Nat.succ.inj hm]
  | dropped hdropped =>
      obtain ⟨ahead, hahead⟩ := Cursor.peek?_eq_some_iff.1 hdropped.peek
      rw [hahead, signatureLength?_of_semicolon hdropped.semicolon] at hlength
      cases hlength

/-- The same parameters are named before the `in` of a signature. -/
theorem Abreast.signatureParameters {n : Nat} (h : Abreast gone levels before c c')
    (hlength : signatureLength? c.ahead = some n) :
    (∀ state, SameOutline (Grammar.signatureParameters state (c.ahead.take n))
        (Grammar.signatureParameters state (c'.ahead.take n))) ∧
      Onward gone levels c c' (c.advanceBy (n + 1)) (c'.advanceBy (n + 1)) := by
  induction n generalizing before c c' with
  | zero =>
      obtain ⟨x, y, hkept, -⟩ := h.kept_of_signature hlength
      exact ⟨fun _ => .nil, hkept.onward⟩
  | succ n ih =>
      obtain ⟨x, y, hkept, hbehind⟩ := h.kept_of_signature hlength
      obtain ⟨hrest, honward⟩ := ih hkept.later (hbehind n rfl)
      refine ⟨fun state => ?_, hkept.onward.trans honward⟩
      rw [hkept.ahead_eq, hkept.ahead_eq', List.take_succ_cons, List.take_succ_cons]
      exact sameOutline_signatureParameters hkept.alike hrest state

theorem Abreast.closureParameters (h : Abreast gone levels before c c') :
    SameOutline (Grammar.closureParameters c).1 (Grammar.closureParameters c').1 ∧
      Onward gone levels c c' (Grammar.closureParameters c).2 (Grammar.closureParameters c').2 := by
  rw [Grammar.closureParameters, Grammar.closureParameters, h.thinned.signatureLength?_eq h.harmless]
  cases hlength : signatureLength? c.ahead with
  | none => exact ⟨.nil, .refl h⟩
  | some n =>
      obtain ⟨hnodes, honward⟩ := h.signatureParameters hlength
      exact ⟨hnodes {}, honward⟩

/-! ### Closures -/

/-- Behind a modifier or an attribute there is no semicolon that goes and no operator. -/
theorem Abreast.behind_attribute (h : Abreast gone levels before c c')
    (hattribute : ((modifierKind? c).isSome || c.atKeyword "weak" || c.atKeyword "unowned") = true)
    {later : Cursor} (hlater : c.advance.skipAttachedGroup = .ok later) :
    later.next gone = false ∧ later.next Lexeme.isOperator = false := by
  have hharmless := h.attributeHarmless
  rw [Grammar.attributeHarmless, hattribute, hlater, Bool.not_true, Bool.false_or] at hharmless
  simp only [Except.toOption, Option.all_some, Bool.not_eq_true'] at hharmless
  cases hahead : later.ahead with
  | nil => exact ⟨Cursor.next_of_nil hahead, Cursor.next_of_nil hahead⟩
  | cons x ahead =>
      have hpeek : later.peek? = some x := Cursor.peek?_eq_some_iff.2 ⟨ahead, hahead⟩
      rw [Cursor.next_of_peek? hpeek, Bool.or_eq_false_iff] at hharmless
      rwa [Cursor.next_of_peek? hpeek, Cursor.next_of_peek? hpeek]

theorem follows_captureSpecifier (h : Abreast gone levels before c c')
    (hkept : Kept gone levels before c c' x y) :
    Outcome.Follows (fun r r' => Onward gone levels c c' r.2 r'.2 ∧ r.2.next gone = false)
      (captureSpecifier c) (captureSpecifier c') := by
  rw [captureSpecifier, captureSpecifier, hkept.peek, hkept.peek']
  dsimp only
  rw [hkept.alike.isKeyword, hkept.alike.isKeyword]
  split
  · rename_i hword
    have hcomma : x.isSymbol "," = false := by
      rw [Bool.or_eq_true, Lexeme.isKeyword_iff, Lexeme.isKeyword_iff] at hword
      refine isSymbol_of_kind_ne ?_ _
      rcases hword with hword | hword
      all_goals simp [hword.1]
    refine (hkept.later.follows_skipAttachedGroup (hkept.spaced hcomma)).and_eq.bind ?_
    rintro later later' ⟨hlater, heq, -⟩
    refine .ok ⟨hkept.onward.trans hlater, (h.behind_attribute ?_ heq).1⟩
    rw [Bool.or_assoc, Cursor.atKeyword, Cursor.atKeyword, hkept.next, hkept.next, hword, Bool.or_true]
  · exact .ok ⟨.refl h, hkept.next.trans hkept.stays⟩

theorem Abreast.captureName (h : Abreast gone levels before c c') (hnext : c.next gone = false) :
    Onward gone levels c c'
      (if (c.peek?.filter fun l => l.isIdentifier || l.isKeyword "self").isSome then c.advance else c)
      (if (c'.peek?.filter fun l => l.isIdentifier || l.isKeyword "self").isSome then c'.advance
        else c') := by
  cases h.meeting with
  | finished hahead hahead' =>
      rw [Cursor.peek?, Cursor.peek?, hahead, hahead']
      exact .refl h
  | dropped hdropped =>
      rw [Cursor.next_of_peek? hdropped.peek, hdropped.goes] at hnext
      exact absurd hnext Bool.noConfusion
  | @kept x y hkept =>
      rw [hkept.peek, hkept.peek', Option.filter_some, Option.filter_some, hkept.alike.isIdentifier,
        hkept.alike.isKeyword]
      split
      · exact hkept.onward
      · exact .refl h

/-- The value behind an equals sign. -/
theorem Follows.value (hg : Follows gone levels g g' depth) (hkept : Kept gone levels before c c' x y)
    (hx : x.isSymbol "=" = true) (hroom : 2 * c'.ahead.length ≤ depth + 1) (trailing : Bool) :
    Outcome.Follows (Along gone levels c c' SameExpression) (g.expression trailing c.advance)
      (g'.expression trailing c'.advance) := by
  have hbefore : Dangling (x :: before) := dangling_of_isSymbol hx (by decide)
  have hlength := hkept.passes'.2
  refine (hg.expression hkept.later (hkept.later.stays hbefore) (not_lone_of_dangling hbefore)
    (by omega) trailing).mono ?_
  exact fun _ _ h => ⟨h.1, hkept.onward.trans h.2⟩

/-- The states of two lists that are read from two cursors on. -/
def ListState (gone : Lexeme → Bool) (levels : Nat) (c c' : Cursor) (nodes : List Node) (middle : Cursor)
    (nodes' : List Node) (middle' : Cursor) : Prop :=
  SameOutline nodes nodes' ∧ Onward gone levels c c' middle middle'

theorem captureRound_of_semicolon (hpeek : c.peek? = some x) (hx : x.isSymbol ";" = true)
    (opener : Lexeme) (nodes : List Node) :
    g.captureRound opener nodes c = .ok (.again nodes, c.advance) := by
  have hidentifier : x.isIdentifier = false := by
    rw [Lexeme.isIdentifier, (Lexeme.isSymbol_iff.1 hx).1]
    rfl
  have hcloses : x.isSymbol "]" = false := isSymbol_of_semicolon hx (by decide)
  have hcomma : x.isSymbol "," = false := isSymbol_of_semicolon hx (by decide)
  have hvalue : c.atSymbol "=" = false := by
    rw [Cursor.atSymbol, Cursor.next_of_peek? hpeek, isSymbol_of_semicolon hx (by decide)]
  simp [captureRound, captureSpecifier, hpeek, hcloses, hcomma, isKeyword_of_semicolon hx, hidentifier,
    hvalue, Cursor.hasStalled, bind, Except.bind, pure, Except.pure]

/-- Another item of two capture lists, or their ends. -/
def CaptureRounds (gone : Lexeme → Bool) (levels : Nat) (c c' middle' : Cursor) :
    Round (List Node) (List Node) × Cursor → Round (List Node) (List Node) × Cursor → Prop :=
  Round.Pair (ListState gone levels c c') (fun r r' => ListState gone levels c c' r.1 r.2 r'.1 r'.2)
    middle'

theorem ListState.captured {nodes nodes' : List Node} {middle middle' later later' : Cursor}
    (h : ListState gone levels c c' nodes middle nodes' middle')
    (habreast : Abreast gone levels before middle middle')
    (hkept : Kept gone levels before middle middle' x y) {node node' : Node}
    (hnode : SameOutline [node] [node']) (hlater : Onward gone levels middle middle' later later') :
    CaptureRounds gone levels c c' middle' (Grammar.captured nodes middle node later)
      (Grammar.captured nodes' middle' node' later') := by
  have heq := hlater.hasStalled_eq habreast (hkept.next.trans hkept.stays)
  rw [Grammar.captured, Grammar.captured, heq]
  cases hstalled : middle.hasStalled later with
  | true => exact ⟨⟨h.1, h.2.trans hkept.onward⟩, hkept.passes'.2⟩
  | false =>
      rw [hstalled] at heq
      exact ⟨⟨h.1.append hnode, h.2.trans hlater⟩, (hlater.reaches'.passes heq).2⟩

/-- The value of a captured variable. -/
theorem Follows.capturedValue (hg : Follows gone levels g g' depth) (h : Abreast gone levels before c c')
    (hroom : 2 * c'.ahead.length ≤ depth + 1) :
    Outcome.Follows (Along gone levels c c' fun e e' => SameOutline e.nodes e'.nodes)
      (if c.atSymbol "=" then g.expression true c.advance else pure (⟨[], false⟩, c))
      (if c'.atSymbol "=" then g'.expression true c'.advance else pure (⟨[], false⟩, c')) := by
  rw [h.atSymbol_eq (by decide)]
  split
  · rename_i hequals
    obtain ⟨x, y, hkept, hx⟩ := h.kept_of_atSymbol hequals (by decide)
    exact (hg.value hkept hx hroom true).mono fun _ _ hvalue => ⟨hvalue.1.nodes, hvalue.2⟩
  · exact .ok ⟨.nil, .refl h⟩

theorem Follows.captureRound (hg : Follows gone levels g g' depth) (opener opener' : Lexeme)
    {nodes nodes' : List Node} {middle middle' : Cursor}
    (h : ListState gone levels c c' nodes middle nodes' middle')
    (hroom : 2 * c'.ahead.length ≤ depth + 1) :
    (∃ more later, g.captureRound opener nodes middle = .ok (.again more, later) ∧
      ListState gone levels c c' more later nodes' middle') ∨
    Outcome.Follows (CaptureRounds gone levels c c' middle') (g.captureRound opener nodes middle)
      (g'.captureRound opener' nodes' middle') := by
  have hlength := h.2.reaches'.length_le
  obtain ⟨before, habreast⟩ := h.2.abreast
  cases habreast.meeting with
  | finished hahead =>
      right
      rw [Grammar.captureRound, Cursor.peek?, hahead]
      exact Outcome.follows_error _
  | dropped hdropped =>
      exact .inl ⟨_, _, captureRound_of_semicolon hdropped.peek hdropped.semicolon opener nodes,
        h.1, h.2.trans hdropped.onward⟩
  | @kept x y hkept =>
      right
      have hsymbol := hkept.alike.isSymbol
      cases hcloses : x.isSymbol "]" with
      | true =>
          rw [Grammar.captureRound, Grammar.captureRound, hkept.peek, hkept.peek']
          dsimp only
          rw [hsymbol, hcloses, if_pos rfl, if_pos rfl]
          exact .ok ⟨h.1, h.2.trans hkept.onward⟩
      | false =>
          cases hcomma : x.isSymbol "," with
          | true =>
              rw [Grammar.captureRound, Grammar.captureRound, hkept.peek, hkept.peek']
              dsimp only
              rw [hsymbol, hsymbol, hcloses, hcomma, if_neg Bool.false_ne_true, if_pos rfl,
                if_neg Bool.false_ne_true, if_pos rfl]
              exact .ok ⟨⟨h.1, h.2.trans hkept.onward⟩, hkept.passes'.2⟩
          | false =>
              rw [captureRound_of_variable hkept.peek hcloses hcomma,
                captureRound_of_variable hkept.peek' ((hsymbol _).trans hcloses)
                  ((hsymbol _).trans hcomma)]
              refine (follows_captureSpecifier habreast hkept).bind ?_
              rintro ⟨attributes, afterSpecifier⟩ ⟨attributes', afterSpecifier'⟩ ⟨hspecifier, hnext⟩
              obtain ⟨_, habreast₁⟩ := hspecifier.abreast
              have hname := hspecifier.trans (habreast₁.captureName hnext)
              obtain ⟨_, habreast₂⟩ := hname.abreast
              have hlength' := hname.reaches'.length_le
              refine (hg.capturedValue habreast₂ (by omega)).bind ?_
              rintro ⟨e, later⟩ ⟨e', later'⟩ ⟨he, hlater⟩
              exact .ok (h.captured habreast hkept (.singleton rfl he) (hname.trans hlater))

theorem Follows.captureList (hg : Follows gone levels g g' depth) (h : Abreast gone levels before c c')
    (hnext : c.next gone = false) (hroom : 2 * c'.ahead.length ≤ depth + 1) :
    Outcome.Follows (Along gone levels c c' SameOutline) (g.captureList c) (g'.captureList c') := by
  cases h.meeting with
  | finished hahead hahead' =>
      rw [Grammar.captureList, Grammar.captureList, hahead, hahead']
      exact .ok ⟨.nil, .refl h⟩
  | dropped hdropped =>
      rw [Cursor.next_of_peek? hdropped.peek, hdropped.goes] at hnext
      exact absurd hnext Bool.noConfusion
  | @kept x y hkept =>
      have hsignature := h.thinned.signatureBehindGroup?_eq h.harmless 0
      have hlength := hkept.passes'.2
      rw [hkept.ahead_eq, hkept.ahead_eq', signatureBehindGroup?, signatureBehindGroup?] at hsignature
      rw [Grammar.captureList, Grammar.captureList, hkept.ahead_eq, hkept.ahead_eq']
      dsimp only
      rw [hkept.alike.isSymbol, hsignature]
      split
      · refine (follows_repeatRounds (S := ListState gone levels c.advance c'.advance)
          (R := fun r r' => ListState gone levels c.advance c'.advance r.1 r.2 r'.1 r'.2)
          (fun _ _ _ _ _ hstate => hg.captureRound x y hstate (by omega))
            ⟨.nil, .refl hkept.later⟩).mono ?_
        exact fun _ _ hlist => ⟨hlist.1, hkept.onward.trans hlist.2⟩
      · exact .ok ⟨.nil, .refl h⟩

theorem Follows.closure (hg : Follows gone levels g g' depth) (h : Abreast gone levels before c c')
    (hroom : 2 * c'.ahead.length ≤ depth) :
    Outcome.Follows (fun r r' => OperandPair gone levels c c' [r.1] r.2 [r'.1] r'.2 ∧ c'.Passes r'.2)
      (g.closure c) (g'.closure c') := by
  rw [Grammar.closure, Grammar.closure]
  refine (h.follows_expectSymbol (by decide) _).bind ?_
  rintro ⟨opener, c₁⟩ ⟨opener', c₁'⟩ ⟨hsymbol, ⟨before₁, h₁⟩, honward₁, hpasses⟩
  have hbefore : Dangling (opener :: before₁) := dangling_of_isSymbol hsymbol (by decide)
  have hlength := hpasses.2
  refine (hg.captureList h₁ (h₁.stays hbefore) (by omega)).bind ?_
  rintro ⟨captures, c₂⟩ ⟨captures', c₂'⟩ ⟨hcaptures, honward₂⟩
  obtain ⟨_, h₂⟩ := honward₂.abreast
  obtain ⟨hparameters, honward₃⟩ := h₂.closureParameters
  dsimp only
  generalize closureParameters c₂ = signature at hparameters honward₃ ⊢
  generalize closureParameters c₂' = signature' at hparameters honward₃ ⊢
  obtain ⟨parameters, c₃⟩ := signature
  obtain ⟨parameters', c₃'⟩ := signature'
  obtain ⟨_, h₃⟩ := honward₃.abreast
  have hlength₃ := (honward₂.trans honward₃).reaches'.length_le
  refine (hg.statements h₃ (by omega) _ _).bind ?_
  rintro ⟨statements, c₄⟩ ⟨statements', c₄'⟩ ⟨hstatements, honward₄⟩
  obtain ⟨_, h₄⟩ := honward₄.abreast
  refine (h₄.follows_expectCloser (by decide) opener opener').bind ?_
  rintro ⟨closer, c₅⟩ ⟨closer', c₅'⟩ ⟨hcloser, ⟨before₅, h₅⟩, honward₅, -⟩
  have honward := honward₂.trans (honward₃.trans (honward₄.trans honward₅))
  refine .ok ⟨⟨.singleton rfl ((hcaptures.append hparameters).append hstatements),
    honward₁.trans honward, h₅.spaced ?_, ?_⟩, hpasses.trans_reaches honward.reaches'⟩
  · rw [List.head?_cons, Option.any_some, isSymbol_ne hcloser (by decide)]
  · rw [endsWithCall_singleton (by simp), endsWithCall_singleton (by simp)]

end SourceLint.Grammar
