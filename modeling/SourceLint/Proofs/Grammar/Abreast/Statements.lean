import SourceLint.Proofs.Grammar.Abreast.Declarations

/-!
# Statements side by side

Statements that are read from two cursors that are abreast have the same outlines. A semicolon that
goes is a round of the first reading that the second one has not. So the grammar follows itself one
level deeper when it does at a level, and the file without the semicolons that go has the forest of
the file with them.
-/

namespace SourceLint.Grammar

open Node (SameOutline)

variable {gone : Lexeme → Bool} {levels : Nat} {before lexemes others : List Lexeme} {c c' : Cursor}
    {x y : Lexeme}
variable {g g' : Grammar} {depth : Nat}

/-! ### Conditions -/

/-- Where an expression has to be, it is read alike behind a lexeme that ends no operand; at a semicolon
that goes there is none. -/
theorem Follows.bind_expression {β β' : Type} {R : β → β' → Prop}
    {f : ExpressionNodes × Cursor → Outcome β}
    {f' : ExpressionNodes × Cursor → Outcome β'} (hg : Follows gone levels g g' depth)
    (h : Abreast gone levels before c c') (hends : before.head?.any endsOperand = false)
    (hroom : 2 * c'.ahead.length + 1 ≤ depth) (trailing : Bool)
    (habsent : ∃ failure, f (⟨[], false⟩, c) = .error failure)
    (hf : ∀ r r', Along gone levels c c' SameExpression r r' → Outcome.Follows R (f r) (f' r')) :
    Outcome.Follows R (g.expression trailing c >>= f) (g'.expression trailing c' >>= f') := by
  have hstays : c.next gone = false → Outcome.Follows R (g.expression trailing c >>= f)
      (g'.expression trailing c' >>= f') := by
    intro hnext
    refine (hg.expression h hnext (fun hlone => ?_) hroom trailing).bind hf
    exact Bool.false_ne_true (hends.symm.trans hlone.2.1)
  cases h.meeting with
  | finished hahead => exact hstays (Cursor.next_of_nil hahead)
  | kept hkept => exact hstays (hkept.next.trans hkept.stays)
  | dropped hdropped =>
      cases hr : g.expression trailing c with
      | error failure => exact Outcome.follows_error failure
      | ok r =>
          obtain rfl := hg.expression_of_semicolon hdropped.peek hdropped.semicolon hr
          obtain ⟨failure, hfailure⟩ := habsent
          rw [show (Except.ok (⟨[], false⟩, c) >>= f) = f (⟨[], false⟩, c) from rfl, hfailure]
          exact Outcome.follows_error failure

theorem Abreast.follows_skipBinding (h : Abreast gone levels before c c') (hbefore : Dangling before) :
    Outcome.Follows (Onward gone levels c c') (skipBinding c) (skipBinding c') := by
  rw [skipBinding, skipBinding]
  cases h.meeting with
  | finished hahead =>
      rw [Cursor.atSymbol, Cursor.next_of_nil hahead, Cursor.peek?, hahead]
      exact Outcome.follows_error _
  | dropped hdropped =>
      have hstays := h.stays hbefore
      rw [Cursor.next_of_peek? hdropped.peek, hdropped.goes] at hstays
      exact absurd hstays Bool.noConfusion
  | @kept x y hkept =>
      rw [Cursor.atSymbol, Cursor.atSymbol, hkept.next, hkept.next', hkept.alike.isSymbol, hkept.peek,
        hkept.peek']
      split
      · exact hkept.follows_skipGroup.mono fun _ _ hgroup => hkept.onward.trans hgroup.1
      · exact .ok hkept.onward

/-- What a clause binds. -/
theorem Kept.follows_binding (hg : Follows gone levels g g' depth)
    (hkept : Kept gone levels before c c' x y)
    (hx : x.isKeyword "let" = true ∨ x.isKeyword "var" = true)
    (hroom : 2 * c'.ahead.length ≤ depth + 1) : Outcome.Follows (Along gone levels c c' SameOutline)
      (do
        let c ← skipBinding c.advance
        let c ← c.skipDeclaredType
        if c.atSymbol "=" then
          let (e, c) ← g.expression false c.advance
          return (e.nodes, c)
        else return ([], c))
      (do
        let c ← skipBinding c'.advance
        let c ← c.skipDeclaredType
        if c.atSymbol "=" then
          let (e, c) ← g'.expression false c.advance
          return (e.nodes, c)
        else return ([], c)) := by
  have hbefore : Dangling (x :: before) := by
    rcases hx with hx | hx
    all_goals exact dangling_of_isKeyword hx (by decide)
  refine (hkept.later.follows_skipBinding hbefore).bind fun c₁ c₁' honward₁ => ?_
  obtain ⟨_, h₁⟩ := honward₁.abreast
  refine h₁.follows_skipDeclaredType.bind fun c₂ c₂' honward₂ => ?_
  obtain ⟨_, h₂⟩ := honward₂.abreast
  have honward := hkept.onward.trans (honward₁.trans honward₂)
  have hlength := honward.reaches'.length_le
  rw [h₂.atSymbol_eq (by decide)]
  split
  · rename_i hequals
    obtain ⟨_, _, hkept', hx'⟩ := h₂.kept_of_atSymbol hequals (by decide)
    refine (hg.value hkept' hx' (by omega) false).bind ?_
    rintro ⟨e, later⟩ ⟨e', later'⟩ ⟨he, hlater⟩
    exact .ok ⟨he.nodes, honward.trans hlater⟩
  · exact .ok ⟨.nil, honward⟩

theorem Follows.clause (hg : Follows gone levels g g' depth) (h : Abreast gone levels before c c')
    (hends : before.head?.any endsOperand = false) (hroom : 2 * c'.ahead.length + 1 ≤ depth) :
    Outcome.Follows (Along gone levels c c' SameOutline) (g.clause c) (g'.clause c') := by
  have hvalue : ∀ {before c₁ c₁'}, Abreast gone levels before c₁ c₁' →
    before.head?.any endsOperand = false →
      Onward gone levels c c' c₁ c₁' → Outcome.Follows (Along gone levels c c' SameOutline)
      (g.expression false c₁ >>= fun r =>
        if r.1.isPresent then .ok (r.1.nodes, r.2) else .expected r.2 .condition)
      (g'.expression false c₁' >>= fun r =>
        if r.1.isPresent then .ok (r.1.nodes, r.2) else .expected r.2 .condition) := by
    intro before c₁ c₁' h₁ hends₁ honward
    have hlength := honward.reaches'.length_le
    refine hg.bind_expression h₁ hends₁ (by omega) false ⟨_, rfl⟩ ?_
    rintro ⟨e, later⟩ ⟨e', later'⟩ ⟨he, hlater⟩
    have hpresent : e'.isPresent = e.isPresent := he.isPresent
    dsimp only
    rw [hpresent]
    split
    · exact .ok ⟨he.nodes, honward.trans hlater⟩
    · exact Outcome.follows_error _
  cases h.meeting with
  | finished hahead hahead' =>
      rw [Grammar.clause, Grammar.clause]
      simp only [Cursor.atKeyword, Cursor.next_of_nil hahead, Cursor.next_of_nil hahead', Bool.or_self,
        if_neg Bool.false_ne_true]
      exact hvalue h hends (.refl h)
  | dropped hdropped =>
      have hword : ∀ word, c.atKeyword word = false := fun word => by
        rw [Cursor.atKeyword, Cursor.next_of_peek? hdropped.peek,
          isKeyword_of_semicolon hdropped.semicolon]
      intro r hr
      rw [Grammar.clause] at hr
      simp only [hword, Bool.or_self, if_neg Bool.false_ne_true] at hr
      cases he : g.expression false c with
      | error failure =>
          rw [he] at hr
          cases hr
      | ok e =>
          obtain rfl := hg.expression_of_semicolon hdropped.peek hdropped.semicolon he
          rw [he] at hr
          cases hr
  | @kept x y hkept =>
      rw [Grammar.clause, Grammar.clause]
      simp only [Cursor.atKeyword, hkept.next, hkept.next', hkept.alike.isKeyword]
      split
      · rename_i hbinds
        rw [Bool.or_eq_true] at hbinds
        exact hkept.follows_binding hg hbinds (by omega)
      · split
        · rename_i hcase
          exact hvalue hkept.later (endsOperand_of_isKeyword hcase (by decide)) hkept.onward
        · exact hvalue h hends (.refl h)

/-- The states of two conditions that are read from two cursors on, with another clause to come. -/
structure ConditionState (gone : Lexeme → Bool) (levels : Nat) (c c' : Cursor) (nodes : List Node)
    (middle : Cursor) (nodes' : List Node) (middle' : Cursor) : Prop where
  outline : SameOutline nodes nodes'
  abreast : ∃ before, Abreast gone levels before middle middle' ∧ before.head?.any endsOperand = false
  reaches : c.Reaches middle
  reaches' : c'.Reaches middle'

theorem Follows.conditionRound (hg : Follows gone levels g g' depth)
    {state state' : List Node × List Element}
    {middle middle' : Cursor} (h : ConditionState gone levels c c' state.1 middle state'.1 middle')
    (hroom : 2 * c'.ahead.length + 1 ≤ depth) :
    Outcome.Follows
      (Round.Pair (fun state later state' later' =>
        ConditionState gone levels c c' state.1 later state'.1 later')
        (fun r r' => SameOutline r.1.1 r'.1.1 ∧ Onward gone levels c c' r.2 r'.2) middle')
      (g.conditionRound state middle) (g'.conditionRound state' middle') := by
  obtain ⟨before, habreast, hends⟩ := h.abreast
  have hlength := h.reaches'.length_le
  rw [Grammar.conditionRound, Grammar.conditionRound]
  refine (hg.clause habreast hends (by omega)).bind ?_
  rintro ⟨more, later⟩ ⟨more', later'⟩ ⟨hmore, hlater⟩
  obtain ⟨_, h₁⟩ := hlater.abreast
  have houtline := h.outline.append hmore
  dsimp only
  rw [h₁.atSymbol_eq (by decide)]
  split
  · rename_i hcomma
    obtain ⟨x, y, hkept, hx⟩ := h₁.kept_of_atSymbol hcomma (by decide)
    have honward := hlater.trans hkept.onward
    refine .ok ⟨⟨houtline, ⟨_, hkept.later, ?_⟩, h.reaches.trans honward.reaches,
      h.reaches'.trans honward.reaches'⟩, (Cursor.Passes.of_reaches hlater.reaches' hkept.passes').2⟩
    exact (dangling_of_isSymbol hx (by decide)).endsOperand
  · exact .ok ⟨houtline, hlater.abreast, h.reaches.trans hlater.reaches,
      h.reaches'.trans hlater.reaches'⟩

theorem Follows.conditions (hg : Follows gone levels g g' depth) (h : Abreast gone levels before c c')
    (hends : before.head?.any endsOperand = false) (hroom : 2 * c'.ahead.length + 1 ≤ depth) :
    Outcome.Follows (fun r r' => SameOutline r.1.1 r'.1.1 ∧ Onward gone levels c c' r.2 r'.2)
      (g.conditions c) (g'.conditions c') :=
  follows_repeatRounds
    (S := fun state middle state' middle' =>
      ConditionState gone levels c c' state.1 middle state'.1 middle')
    (fun _ _ _ _ _ hstate => .inr (hg.conditionRound hstate hroom))
    ⟨.nil, ⟨before, h, hends⟩, .refl c, .refl c'⟩

/-! ### Loops -/

/-- Both stand before the keyword. -/
structure AtKeyword (gone : Lexeme → Bool) (levels : Nat) (word : String)
    (c c' later later' : Cursor) : Prop where
  kept : ∃ before x y, Kept gone levels before later later' x y ∧ x.isKeyword word = true
  reaches : c.Reaches later
  reaches' : c'.Reaches later'

section Lists

variable {sourceStop sourceStop' lastStop lastStop' : Nat}

theorem follows_skipLoopPattern (hthinned : Thinned gone before lexemes others)
    (h : Abreast gone levels before ⟨lexemes, lastStop, sourceStop⟩ ⟨others, lastStop', sourceStop'⟩)
    (opens patternStop patternStop' : Nat) :
    Outcome.Follows (fun r r' => AtKeyword gone levels "in" ⟨lexemes, lastStop, sourceStop⟩
        ⟨others, lastStop', sourceStop'⟩ r.2 r'.2)
      (skipLoopPattern sourceStop opens patternStop lastStop lexemes)
      (skipLoopPattern sourceStop' opens patternStop' lastStop' others) := by
  induction hthinned generalizing lastStop lastStop' opens patternStop patternStop' with
  | nil => exact Outcome.follows_error _
  | @keep before lexemes others x y hgone halike hapart hrest ih =>
      have hnext : ∀ opens, Outcome.Follows (fun r r' => AtKeyword gone levels "in"
            ⟨x :: lexemes, lastStop, sourceStop⟩ ⟨y :: others, lastStop', sourceStop'⟩ r.2 r'.2)
          (skipLoopPattern sourceStop opens x.stop x.stop lexemes)
          (skipLoopPattern sourceStop' opens y.stop y.stop others) := fun opens =>
        (ih (h.tail_keep hgone) opens x.stop y.stop).mono
          fun _ _ hin => ⟨hin.kept, hin.reaches.cons, hin.reaches'.cons⟩
      rw [skipLoopPattern.eq_def, skipLoopPattern.eq_def sourceStop']
      dsimp only
      rw [halike.isKeyword, halike.isSymbol, halike.isSymbol, halike.isSymbol, halike.isSymbol,
        halike.isSymbol]
      split
      · rename_i hin
        rw [Bool.and_eq_true] at hin
        obtain ⟨y', hkept⟩ := h.kept rfl hgone
        exact .ok ⟨⟨before, x, y', hkept, hin.2⟩, .refl _, .refl _⟩
      · split
        · exact Outcome.follows_error _
        · split
          · exact hnext _
          · split
            · cases opens with
              | zero => exact Outcome.follows_error _
              | succ opens => exact hnext opens
            · exact hnext opens
  | @drop before lexemes others x hgone hsemicolon hline hrest ih =>
      have hsymbol : ∀ {text : String}, text ≠ ";" → x.isSymbol text = false := fun htext =>
        isSymbol_of_semicolon hsemicolon htext
      rw [skipLoopPattern.eq_def]
      dsimp only
      rw [isKeyword_of_semicolon hsemicolon, hsymbol (by decide), hsymbol (by decide),
        hsymbol (by decide), hsymbol (by decide), hsymbol (by decide), Bool.and_false]
      exact (ih (h.tail_drop hgone) opens x.stop patternStop').mono
        fun _ _ hin => ⟨hin.kept, hin.reaches.cons, hin.reaches'⟩

end Lists

theorem Follows.whereClause (hg : Follows gone levels g g' depth) (h : Abreast gone levels before c c')
    (hroom : 2 * c'.ahead.length + 1 ≤ depth) :
    Outcome.Follows (Along gone levels c c' SameOutline) (g.whereClause c) (g'.whereClause c') := by
  rw [Grammar.whereClause, Grammar.whereClause, h.atKeyword_eq (by decide)]
  split
  · rename_i hwhere
    obtain ⟨x, y, hkept, hx⟩ := h.kept_of_atKeyword hwhere
    have hlength := hkept.passes'.2
    have hbefore : Dangling (x :: before) := dangling_of_isKeyword hx (by decide)
    refine (hg.expression hkept.later (hkept.later.stays hbefore) (not_lone_of_dangling hbefore)
      (by omega)
      false).bind ?_
    rintro ⟨e, later⟩ ⟨e', later'⟩ ⟨he, hlater⟩
    exact .ok ⟨he.nodes, hkept.onward.trans hlater⟩
  · exact .ok ⟨.nil, .refl h⟩

/-- The words that lead the pattern of a loop. -/
theorem Kept.loopWords (hkept : Kept gone levels before c c' x y) (hx : Dangling (x :: before))
    {test : Lexeme → Bool}
    (htest : test = fun l => l.isKeyword "case" || l.isKeyword "try" || l.isKeyword "await") :
    (c'.advance.ahead.takeWhile test).length = (c.advance.ahead.takeWhile test).length ∧
      Onward gone levels c.advance c'.advance
        (c.advance.advanceBy (c.advance.ahead.takeWhile test).length)
        (c'.advance.advanceBy (c.advance.ahead.takeWhile test).length) := by
  subst htest
  refine hkept.later.takeWhile (fun x y halike => ?_) (fun x hsemicolon => ?_) ?_
  · simp only [halike.isKeyword]
  · simp only [isKeyword_of_semicolon hsemicolon, Bool.or_self]
  · intro before' later later' hlater hbefore _ hgone
    have hdangling : Dangling before' := by
      rcases hbefore with rfl | hword
      · exact hx
      · cases before' with
        | nil => exact absurd hword Bool.false_ne_true
        | cons word before' =>
            rw [List.head?_cons, Option.any_some, Bool.or_eq_true, Bool.or_eq_true] at hword
            rcases hword with (hword | hword) | hword
            all_goals exact dangling_of_isKeyword hword (by decide)
    exact absurd ((hlater.stays hdangling).symm.trans hgone) Bool.false_ne_true

theorem Follows.forEach (hg : Follows gone levels g g' depth) (hkept : Kept gone levels before c c' x y)
    (hx : x.isKeyword "for" = true) (hroom : 2 * c'.ahead.length ≤ depth) :
    Outcome.Follows (Along gone levels c c' SameOutline) (g.forEach x c) (g'.forEach y c') := by
  obtain ⟨hwords, honward₁⟩ := hkept.loopWords (dangling_of_isKeyword hx (by decide)) rfl
  rw [Grammar.forEach, Grammar.forEach]
  dsimp only
  rw [hwords]
  generalize c.advance.advanceBy _ = c₁ at honward₁ ⊢
  generalize c'.advance.advanceBy _ = c₁' at honward₁ ⊢
  obtain ⟨_, h₁⟩ := honward₁.abreast
  refine (follows_skipLoopPattern h₁.thinned h₁ 0 c₁.here c₁'.here).bind ?_
  rintro ⟨patternStop, c₂⟩ ⟨patternStop', c₂'⟩ ⟨⟨_, z, w, hkept₂, hz⟩, hreaches₂, hreaches₂'⟩
  dsimp only at hkept₂ hreaches₂ hreaches₂' ⊢
  have honward₃ : Onward gone levels c c' c₂.advance c₂'.advance :=
    hkept.onward.trans (honward₁.trans ⟨⟨_, hkept₂.later⟩, Cursor.Reaches.trans hreaches₂ (.advance c₂),
      Cursor.Reaches.trans hreaches₂' (.advance c₂')⟩)
  have hlength : c₂'.advance.ahead.length < c'.ahead.length :=
    (hkept.passes'.trans_reaches
      (honward₁.reaches'.trans (Cursor.Reaches.trans hreaches₂' (.advance c₂')))).2
  refine hg.bind_expression hkept₂.later (endsOperand_of_isKeyword hz (by decide)) (by omega) false
    ⟨_, rfl⟩ ?_
  rintro ⟨sequence, c₄⟩ ⟨sequence', c₄'⟩ ⟨hsequence, honward₄⟩
  have hpresent : sequence'.isPresent = sequence.isPresent := hsequence.isPresent
  obtain ⟨_, h₄⟩ := honward₄.abreast
  have hlength₄ := honward₄.reaches'.length_le
  dsimp only at h₄ hlength₄ ⊢
  rw [hpresent]
  split
  · exact Outcome.follows_error _
  · refine (hg.whereClause h₄ (by omega)).bind ?_
    rintro ⟨condition, c₅⟩ ⟨condition', c₅'⟩ ⟨hcondition, honward₅⟩
    obtain ⟨_, h₅⟩ := honward₅.abreast
    have hlength₅ := honward₅.reaches'.length_le
    dsimp only at h₅ hlength₅
    refine (hg.block h₅ (by omega)).bind ?_
    rintro ⟨body, c₆⟩ ⟨body', c₆'⟩ ⟨⟨hbody, honward₆⟩, -⟩
    exact .ok ⟨.singleton rfl ((hsequence.nodes.append hcondition).append hbody),
      honward₃.trans (honward₄.trans (honward₅.trans honward₆))⟩

theorem Follows.whileLoop (hg : Follows gone levels g g' depth)
    (hkept : Kept gone levels before c c' x y)
    (hx : x.isKeyword "while" = true) (hroom : 2 * c'.ahead.length ≤ depth) :
    Outcome.Follows (Along gone levels c c' SameOutline) (g.whileLoop x c) (g'.whileLoop y c') := by
  have hlength := hkept.passes'.2
  rw [Grammar.whileLoop, Grammar.whileLoop]
  refine (hg.conditions hkept.later (endsOperand_of_isKeyword hx (by decide)) (by omega)).bind ?_
  rintro ⟨⟨nodes, elements⟩, c₁⟩ ⟨⟨nodes', elements'⟩, c₁'⟩ ⟨hnodes, honward₁⟩
  obtain ⟨_, h₁⟩ := honward₁.abreast
  have hlength₁ := honward₁.reaches'.length_le
  refine (hg.block h₁ (by omega)).bind ?_
  rintro ⟨body, c₂⟩ ⟨body', c₂'⟩ ⟨⟨hbody, honward₂⟩, -⟩
  exact .ok ⟨.singleton rfl (hnodes.append hbody), hkept.onward.trans (honward₁.trans honward₂)⟩

/-- Both have taken the keyword. -/
structure TookKeyword (gone : Lexeme → Bool) (levels : Nat) (word : String)
    (c c' later later' : Cursor) : Prop where
  behind : ∃ before x, Abreast gone levels (x :: before) later later' ∧ x.isKeyword word = true
  onward : Onward gone levels c c' later later'

theorem Abreast.follows_expectKeyword (h : Abreast gone levels before c c') (word : String) :
    Outcome.Follows (TookKeyword gone levels word c c') (c.expectKeyword word)
      (c'.expectKeyword word) := by
  rw [Cursor.expectKeyword, Cursor.expectKeyword]
  cases hword : c.atKeyword word with
  | false => exact Outcome.follows_error _
  | true =>
      obtain ⟨x, y, hkept, hx⟩ := h.kept_of_atKeyword hword
      rw [Cursor.atKeyword, hkept.next', hkept.alike.isKeyword, hx]
      exact .ok ⟨⟨before, x, hkept.later, hx⟩, hkept.onward⟩

theorem Follows.repeatWhile (hg : Follows gone levels g g' depth)
    (hkept : Kept gone levels before c c' x y) (hroom : 2 * c'.ahead.length ≤ depth) :
    Outcome.Follows (Along gone levels c c' SameOutline) (g.repeatWhile x c) (g'.repeatWhile y c') := by
  have hlength := hkept.passes'.2
  rw [Grammar.repeatWhile, Grammar.repeatWhile]
  refine (hg.block hkept.later (by omega)).bind ?_
  rintro ⟨body, c₁⟩ ⟨body', c₁'⟩ ⟨⟨hbody, honward₁⟩, -⟩
  obtain ⟨_, h₁⟩ := honward₁.abreast
  refine (h₁.follows_expectKeyword "while").bind ?_
  rintro c₂ c₂' ⟨⟨_, z, h₂, hz⟩, honward₂⟩
  have hlength₂ := (honward₁.trans honward₂).reaches'.length_le
  refine (hg.conditions h₂ (endsOperand_of_isKeyword hz (by decide)) (by omega)).bind ?_
  rintro ⟨⟨nodes, elements⟩, c₃⟩ ⟨⟨nodes', elements'⟩, c₃'⟩ ⟨hnodes, honward₃⟩
  exact .ok ⟨.singleton rfl (hbody.append hnodes),
    hkept.onward.trans (honward₁.trans (honward₂.trans honward₃))⟩

/-! ### Branches -/

theorem block_of_not_brace (h : c.atSymbol "\x7b" = false) :
    g.block c = .error (.fault (.expected .openingBrace c.here)) := by
  have hexpect : c.expectSymbol "\x7b" .openingBrace =
    .error (.fault (.expected .openingBrace c.here)) := by
    rw [Cursor.expectSymbol]
    cases hpeek : c.peek? with
    | none => rfl
    | some x =>
        rw [Cursor.atSymbol, Cursor.next_of_peek? hpeek] at h
        dsimp only
        rw [h]
        rfl
  rw [block, hexpect]
  rfl

theorem Follows.elseBranch (hg : Follows gone levels g g' depth) (h : Abreast gone levels before c c')
    (hroom : 2 * c'.ahead.length ≤ depth) :
    Outcome.Follows (Along gone levels c c' SameOutline) (g.elseBranch c) (g'.elseBranch c') := by
  rw [Grammar.elseBranch, Grammar.elseBranch, h.atKeyword_eq (by decide)]
  split
  · rename_i helse
    obtain ⟨x, y, hkept, hx⟩ := h.kept_of_atKeyword helse
    have hlength := hkept.passes'.2
    have hbranch : ∀ r r' : Node × Cursor,
        Along gone levels c.advance c'.advance (fun node node' => SameOutline [node] [node']) r r' →
        Outcome.Follows (Along gone levels c c' SameOutline) (.ok ([r.1], r.2)) (.ok ([r'.1], r'.2)) :=
      fun _ _ hlater => .ok ⟨hlater.1, hkept.onward.trans hlater.2⟩
    have hblock := (hg.block hkept.later (by omega)).bind fun r r' hlater => hbranch r r' hlater.1
    dsimp only
    cases hkept.later.meeting with
    | finished hahead hahead' =>
        rw [Cursor.atKeyword, Cursor.next_of_nil hahead, Cursor.atKeyword, Cursor.next_of_nil hahead']
        exact hblock
    | dropped hdropped =>
        -- no block begins at a semicolon, so there is no result to follow
        rw [Cursor.atKeyword, Cursor.next_of_peek? hdropped.peek,
          isKeyword_of_semicolon hdropped.semicolon, if_neg Bool.false_ne_true, block_of_not_brace]
        · exact Outcome.follows_error _
        · rw [Cursor.atSymbol, Cursor.next_of_peek? hdropped.peek]
          exact isSymbol_of_semicolon hdropped.semicolon (by decide)
    | kept hkept' =>
        have hif : c'.advance.atKeyword "if" = c.advance.atKeyword "if" := by
          rw [Cursor.atKeyword, Cursor.atKeyword, hkept'.next, hkept'.next', hkept'.alike.isKeyword]
        rw [hif]
        split
        · rename_i hword
          exact (hg.ifStatement hkept.later hword (by omega)).bind hbranch
        · exact hblock
  · exact .ok ⟨.nil, .refl h⟩

theorem Follows.ifBody (hg : Follows gone levels g g' depth) (h : Abreast gone levels before c c')
    (hif : c.atKeyword "if" = true) (hroom : 2 * c'.ahead.length ≤ depth) :
    Outcome.Follows (Along gone levels c c' fun node node' => SameOutline [node] [node']) (g.ifBody c)
      (g'.ifBody c') := by
  obtain ⟨x, y, hkept, hx⟩ := h.kept_of_atKeyword hif
  have hlength := hkept.passes'.2
  rw [Grammar.ifBody, Grammar.ifBody]
  refine (hg.conditions hkept.later (endsOperand_of_isKeyword hx (by decide)) (by omega)).bind ?_
  rintro ⟨⟨nodes, elements⟩, c₁⟩ ⟨⟨nodes', elements'⟩, c₁'⟩ ⟨hnodes, honward₁⟩
  obtain ⟨_, h₁⟩ := honward₁.abreast
  have hlength₁ := honward₁.reaches'.length_le
  refine (hg.block h₁ (by omega)).bind ?_
  rintro ⟨body, c₂⟩ ⟨body', c₂'⟩ ⟨⟨hbody, honward₂⟩, -⟩
  obtain ⟨_, h₂⟩ := honward₂.abreast
  have hlength₂ := honward₂.reaches'.length_le
  refine (hg.elseBranch h₂ (by omega)).bind ?_
  rintro ⟨alternative, c₃⟩ ⟨alternative', c₃'⟩ ⟨halternative, honward₃⟩
  exact .ok ⟨.singleton rfl ((hnodes.append hbody).append halternative),
    hkept.onward.trans (honward₁.trans (honward₂.trans honward₃))⟩

theorem Follows.guardStatement (hg : Follows gone levels g g' depth)
    (hkept : Kept gone levels before c c' x y)
    (hx : x.isKeyword "guard" = true) (hroom : 2 * c'.ahead.length ≤ depth) :
    Outcome.Follows (Along gone levels c c' SameOutline) (g.guardStatement x c)
      (g'.guardStatement y c') := by
  have hlength := hkept.passes'.2
  rw [Grammar.guardStatement, Grammar.guardStatement]
  refine (hg.conditions hkept.later (endsOperand_of_isKeyword hx (by decide)) (by omega)).bind ?_
  rintro ⟨⟨nodes, elements⟩, c₁⟩ ⟨⟨nodes', elements'⟩, c₁'⟩ ⟨hnodes, honward₁⟩
  obtain ⟨_, h₁⟩ := honward₁.abreast
  refine (h₁.follows_expectKeyword "else").bind fun c₂ c₂' htook => ?_
  obtain ⟨_, h₂⟩ := htook.onward.abreast
  have hlength₂ := (honward₁.trans htook.onward).reaches'.length_le
  refine (hg.block h₂ (by omega)).bind ?_
  rintro ⟨body, c₃⟩ ⟨body', c₃'⟩ ⟨⟨hbody, honward₃⟩, -⟩
  exact .ok ⟨.singleton rfl (hnodes.append hbody),
    hkept.onward.trans (honward₁.trans (htook.onward.trans honward₃))⟩

/-- The label of a case clause behind the word `@unknown`, if that leads it. -/
theorem Abreast.follows_label (h : Abreast gone levels before c c') :
    Outcome.Follows (fun later later' => Onward gone levels c c' later later' ∧ c'.Passes later')
      (if c.atKeyword "case" then c.advance.skipCasePattern
      else if c.atKeyword "default" then
        c.advance.expectSymbol ":" .colon >>= fun r => .ok r.2
      else .expected c .caseOrDefault)
      (if c'.atKeyword "case" then c'.advance.skipCasePattern
      else if c'.atKeyword "default" then
        c'.advance.expectSymbol ":" .colon >>= fun r => .ok r.2
      else .expected c' .caseOrDefault) := by
  cases h.meeting with
  | finished hahead =>
      simp only [Cursor.atKeyword, Cursor.next_of_nil hahead, if_neg Bool.false_ne_true]
      exact Outcome.follows_error _
  | dropped hdropped =>
      simp only [Cursor.atKeyword, Cursor.next_of_peek? hdropped.peek,
        isKeyword_of_semicolon hdropped.semicolon, if_neg Bool.false_ne_true]
      exact Outcome.follows_error _
  | @kept x y hkept =>
      simp only [Cursor.atKeyword, hkept.next, hkept.next', hkept.alike.isKeyword]
      split
      · exact hkept.later.follows_skipCasePattern.mono fun _ _ hlater =>
          ⟨hkept.onward.trans hlater, hkept.passes'.trans_reaches hlater.reaches'⟩
      · split
        · refine (hkept.later.follows_expectSymbol (by decide) _).bind fun r r' htook => ?_
          exact .ok ⟨hkept.onward.trans htook.onward, hkept.passes'.trans_reaches htook.onward.reaches'⟩
        · exact Outcome.follows_error _

theorem skipCaseLabel_of_semicolon (hpeek : c.peek? = some x) (hx : x.isSymbol ";" = true) :
    skipCaseLabel c = .error (.fault (.expected .caseOrDefault c.here)) := by
  have hunknown : (x.text == "@unknown") = false := by
    rw [(Lexeme.isSymbol_iff.1 hx).2]
    decide
  rw [skipCaseLabel]
  dsimp only
  simp only [Cursor.next_of_peek? hpeek, hunknown, Cursor.atKeyword, isKeyword_of_semicolon hx,
    if_neg Bool.false_ne_true]
  rfl

theorem Abreast.follows_skipCaseLabel (h : Abreast gone levels before c c') :
    Outcome.Follows (fun later later' => Onward gone levels c c' later later' ∧ c'.Passes later')
      (skipCaseLabel c) (skipCaseLabel c') := by
  cases h.meeting with
  | finished hahead hahead' =>
      rw [skipCaseLabel, skipCaseLabel, Cursor.next_of_nil hahead, Cursor.next_of_nil hahead']
      exact h.follows_label
  | dropped hdropped =>
      rw [skipCaseLabel_of_semicolon hdropped.peek hdropped.semicolon]
      exact Outcome.follows_error _
  | @kept x y hkept =>
      rw [skipCaseLabel, skipCaseLabel, hkept.next, hkept.next', hkept.alike.text_beq (by decide)]
      dsimp only
      split
      · exact hkept.later.follows_label.mono fun _ _ hlabel =>
          ⟨hkept.onward.trans hlabel.1, .of_reaches hkept.passes'.1 hlabel.2⟩
      · exact h.follows_label

theorem Follows.caseRound (hg : Follows gone levels g g' depth) {nodes nodes' : List Node}
    {middle middle' : Cursor} (h : ListState gone levels c c' nodes middle nodes' middle')
    (hroom : 2 * c'.ahead.length ≤ depth) :
    Outcome.Follows (Round.Pair (ListState gone levels c c')
      (Along gone levels c c' SameOutline) middle')
      (g.caseRound nodes middle) (g'.caseRound nodes' middle') := by
  obtain ⟨houtline, honward⟩ := h
  obtain ⟨before, habreast⟩ := honward.abreast
  have hlength := honward.reaches'.length_le
  have hclause : ∀ start start' : Nat, Outcome.Follows
      (Round.Pair (ListState gone levels c c') (Along gone levels c c' SameOutline) middle')
      (skipCaseLabel middle >>= fun c => g.statements .functionBody true c >>= fun r =>
        pure (.again (nodes ++ [{
          kind := .caseClause, span := Span.ofBounds start r.2.lastStop, children := r.1 }]), r.2))
      (skipCaseLabel middle' >>= fun c => g'.statements .functionBody true c >>= fun r =>
        pure (.again (nodes' ++ [{
          kind := .caseClause, span := Span.ofBounds start' r.2.lastStop
          children := r.1 }]), r.2)) := by
    intro start start'
    refine habreast.follows_skipCaseLabel.bind ?_
    rintro c₁ c₁' ⟨honward₁, hpasses⟩
    obtain ⟨_, h₁⟩ := honward₁.abreast
    have hlength₁ := hpasses.2
    refine (hg.statements h₁ (by omega) _ _).bind ?_
    rintro ⟨children, c₂⟩ ⟨children', c₂'⟩ ⟨hchildren, honward₂⟩
    exact .ok ⟨⟨houtline.append (.singleton rfl hchildren), honward.trans (honward₁.trans honward₂)⟩,
      (hpasses.trans_reaches honward₂.reaches').2⟩
  rw [Grammar.caseRound, Grammar.caseRound]
  cases habreast.meeting with
  | finished hahead hahead' =>
      rw [Cursor.peek?, Cursor.peek?, hahead, hahead']
      exact .ok ⟨houtline, honward⟩
  | dropped hdropped =>
      rw [hdropped.peek]
      dsimp only
      rw [isSymbol_of_semicolon hdropped.semicolon (by decide), if_neg Bool.false_ne_true,
        skipCaseLabel_of_semicolon hdropped.peek hdropped.semicolon]
      exact Outcome.follows_error _
  | @kept x y hkept =>
      rw [hkept.peek, hkept.peek']
      dsimp only
      rw [hkept.alike.isSymbol]
      split
      · exact .ok ⟨houtline, honward⟩
      · exact hclause x.start y.start

theorem Follows.switchStatement (hg : Follows gone levels g g' depth)
    (hkept : Kept gone levels before c c' x y)
    (hx : x.isKeyword "switch" = true) (hroom : 2 * c'.ahead.length ≤ depth) :
    Outcome.Follows (Along gone levels c c' SameOutline) (g.switchStatement x c)
      (g'.switchStatement y c') := by
  have hlength := hkept.passes'.2
  rw [Grammar.switchStatement, Grammar.switchStatement]
  refine hg.bind_expression hkept.later (endsOperand_of_isKeyword hx (by decide)) (by omega) false
    ⟨_, rfl⟩ ?_
  rintro ⟨subject, c₁⟩ ⟨subject', c₁'⟩ ⟨hsubject, honward₁⟩
  have hpresent : subject'.isPresent = subject.isPresent := hsubject.isPresent
  obtain ⟨_, h₁⟩ := honward₁.abreast
  dsimp only
  rw [hpresent]
  split
  · exact Outcome.follows_error _
  · refine (h₁.follows_expectSymbol (by decide) _).bind ?_
    rintro ⟨opener, c₂⟩ ⟨opener', c₂'⟩ ⟨-, ⟨_, h₂⟩, honward₂, -⟩
    have hlength₂ : c₂'.ahead.length ≤ c'.advance.ahead.length :=
      (honward₁.trans honward₂).reaches'.length_le
    refine Outcome.Follows.bind (R := Along gone levels c₂ c₂' SameOutline)
      (follows_repeatRounds (S := ListState gone levels c₂ c₂')
        (fun _ _ _ _ _ hstate => .inr (hg.caseRound hstate (by omega))) ⟨.nil, .refl h₂⟩) ?_
    rintro ⟨clauses, c₃⟩ ⟨clauses', c₃'⟩ ⟨hclauses, honward₃⟩
    obtain ⟨_, h₃⟩ := honward₃.abreast
    refine (h₃.follows_expectCloser (by decide) opener opener').bind ?_
    rintro ⟨closer, c₄⟩ ⟨closer', c₄'⟩ ⟨-, -, honward₄, -⟩
    exact .ok ⟨.singleton rfl (hsubject.nodes.append hclauses),
      hkept.onward.trans (honward₁.trans (honward₂.trans (honward₃.trans honward₄)))⟩

theorem Follows.catchRound (hg : Follows gone levels g g' depth) {nodes nodes' : List Node}
    {middle middle' : Cursor} (h : ListState gone levels c c' nodes middle nodes' middle')
    (hroom : 2 * c'.ahead.length ≤ depth) :
    Outcome.Follows (Round.Pair (ListState gone levels c c')
      (Along gone levels c c' SameOutline) middle')
      (g.catchRound nodes middle) (g'.catchRound nodes' middle') := by
  obtain ⟨houtline, honward⟩ := h
  obtain ⟨before, habreast⟩ := honward.abreast
  have hlength := honward.reaches'.length_le
  rw [Grammar.catchRound, Grammar.catchRound, habreast.atKeyword_eq (by decide)]
  split
  · rename_i hcatch
    obtain ⟨x, y, hkept, -⟩ := habreast.kept_of_atKeyword hcatch
    refine hkept.later.follows_skipToBrace.bind fun c₁ c₁' honward₁ => ?_
    obtain ⟨_, h₁⟩ := honward₁.abreast
    have hpasses := hkept.passes'.trans_reaches honward₁.reaches'
    have hlength₁ := hpasses.2
    refine (hg.block h₁ (by omega)).bind ?_
    rintro ⟨body, c₂⟩ ⟨body', c₂'⟩ ⟨⟨hbody, honward₂⟩, -⟩
    exact .ok ⟨⟨houtline.append hbody, honward.trans (hkept.onward.trans (honward₁.trans honward₂))⟩,
      (hpasses.trans_reaches honward₂.reaches').2⟩
  · exact .ok ⟨houtline, honward⟩

theorem Follows.doStatement (hg : Follows gone levels g g' depth)
    (hkept : Kept gone levels before c c' x y) (hroom : 2 * c'.ahead.length ≤ depth) :
    Outcome.Follows (Along gone levels c c' SameOutline) (g.doStatement c) (g'.doStatement c') := by
  have hlength := hkept.passes'.2
  rw [Grammar.doStatement, Grammar.doStatement]
  refine (hg.block hkept.later (by omega)).bind ?_
  rintro ⟨body, c₁⟩ ⟨body', c₁'⟩ ⟨⟨hbody, honward₁⟩, -⟩
  exact follows_repeatRounds (S := ListState gone levels c c')
    (fun _ _ _ _ _ hstate => .inr (hg.catchRound hstate hroom)) ⟨hbody, hkept.onward.trans honward₁⟩

/-! ### Single statements -/

theorem Follows.jumpValue (hg : Follows gone levels g g' depth) (h : Abreast gone levels before c c')
    (hends : before.head?.any endsOperand = false) (hroom : 2 * c'.ahead.length + 1 ≤ depth) :
    Outcome.Follows (Along gone levels c c' SameOutline) (g.jumpValue c) (g'.jumpValue c') := by
  have hnext : c'.next (fun l => !l.isOnNewLine && !l.isCloser && !l.isSymbol ";") =
      c.next fun l => !l.isOnNewLine && !l.isCloser && !l.isSymbol ";" := by
    refine h.next_eq (fun x y halike _ => ?_) (fun x hsemicolon => ?_) fun x ahead hfresh => ?_
    · rw [halike.isOnNewLine, halike.isCloser, halike.isSymbol]
    · rw [hsemicolon, Bool.not_true, Bool.and_false]
    · rw [hfresh.head_isOnNewLine, Bool.not_true, Bool.false_and, Bool.false_and]
  rw [Grammar.jumpValue, Grammar.jumpValue, hnext]
  split
  · rename_i hvalue
    obtain ⟨x, y, hkept, -⟩ := h.kept_of_next hvalue fun x hsemicolon => by
      rw [hsemicolon, Bool.not_true, Bool.and_false]
    refine (hg.expression h (hkept.next.trans hkept.stays) (fun hlone => ?_) hroom true).bind ?_
    · exact Bool.false_ne_true (hends.symm.trans hlone.2.1)
    · rintro ⟨e, later⟩ ⟨e', later'⟩ ⟨he, hlater⟩
      exact .ok ⟨he.nodes, hlater⟩
  · exact .ok ⟨.nil, .refl h⟩

theorem Abreast.skipJumpLabel (h : Abreast gone levels before c c') :
    Onward gone levels c c' (Grammar.skipJumpLabel c) (Grammar.skipJumpLabel c') := by
  have hnext : c'.next (fun l => l.isIdentifier && !l.isOnNewLine) =
      c.next fun l => l.isIdentifier && !l.isOnNewLine := by
    refine h.next_eq (fun x y halike _ => ?_) (fun x hsemicolon => ?_) fun x ahead hfresh => ?_
    · rw [halike.isIdentifier, halike.isOnNewLine]
    · rw [Lexeme.isIdentifier, (Lexeme.isSymbol_iff.1 hsemicolon).1]
      rfl
    · rw [hfresh.head_isOnNewLine, Bool.not_true, Bool.and_false]
  rw [Grammar.skipJumpLabel, Grammar.skipJumpLabel, hnext]
  split
  · rename_i hlabel
    obtain ⟨x, y, hkept, -⟩ := h.kept_of_next hlabel fun x hsemicolon => by
      rw [Lexeme.isIdentifier, (Lexeme.isSymbol_iff.1 hsemicolon).1]
      rfl
    exact hkept.onward
  · exact .refl h

theorem Kept.skipStatementLabel (h : Abreast gone levels before c c')
    (hkept : Kept gone levels before c c' x y) :
    LeadTaken gone levels c c' (Grammar.skipStatementLabel c) (Grammar.skipStatementLabel c') := by
  have hnone : LeadTaken gone levels c c' c c' :=
    ⟨.refl h, hkept.next.trans hkept.stays, fun _ => ⟨rfl, rfl⟩⟩
  rw [Grammar.skipStatementLabel, Grammar.skipStatementLabel, hkept.next, hkept.next',
    hkept.alike.isIdentifier, Cursor.peekAt?_one hkept.peek, Cursor.peekAt?_one hkept.peek']
  have hcolon : (c'.advance.peek?.any fun l => l.isSymbol ":") =
      c.advance.peek?.any fun l => l.isSymbol ":" := hkept.later.atSymbol_eq (by decide)
  rw [hcolon]
  cases hlabel : (x.isIdentifier && c.advance.peek?.any fun l => l.isSymbol ":") with
  | false => exact hnone
  | true =>
      rw [Bool.and_eq_true] at hlabel
      obtain ⟨z, w, hkept', hz⟩ := hkept.later.kept_of_atSymbol hlabel.2 (by decide)
      have hstays := hkept'.later.stays (dangling_of_isSymbol hz (by decide))
      have hloop : c'.advance.advance.next
            (fun l => ["for", "while", "repeat", "switch", "if", "do"].any l.isKeyword) =
          c.advance.advance.next
            fun l => ["for", "while", "repeat", "switch", "if", "do"].any l.isKeyword := by
        refine hkept'.later.next_eq_of_stays hstays fun u w halike => ?_
        rw [show w.isKeyword = u.isKeyword from funext halike.isKeyword]
      rw [Cursor.next, Cursor.next] at hloop
      rw [Cursor.peekAt?_two hkept.peek hkept'.peek, Cursor.peekAt?_two hkept.peek' hkept'.peek', hloop,
        Bool.true_and]
      split
      · rename_i hword
        refine ⟨hkept.onward.trans hkept'.onward, hstays, fun hoperator => ?_⟩
        obtain ⟨u, hu⟩ := Cursor.exists_peek?_of_next hoperator
        rw [show c.advance.advance.peek? = some u from hu, Option.any_some, List.any_eq_true] at hword
        obtain ⟨word, -, hword⟩ := hword
        have hoperator' : u.isOperator = true := (Cursor.next_of_peek? hu).symm.trans hoperator
        have hkind := (Lexeme.isKeyword_iff.1 hword).1
        rw [kind_of_isOperator hoperator'] at hkind
        cases hkind
      · exact hnone

/-! ### Statements -/

theorem Follows.expressionStatement (hg : Follows gone levels g g' depth)
    (h : Abreast gone levels before c c')
    (hnext : c.next gone = false) (hlone : ¬Lone gone before c)
    (hroom : 2 * c'.ahead.length + 1 ≤ depth) :
    Outcome.Follows (Along gone levels c c' SameOutline) (g.expressionStatement c)
      (g'.expressionStatement c') := by
  rw [Grammar.expressionStatement, Grammar.expressionStatement]
  refine (hg.expression h hnext hlone hroom true).bind ?_
  rintro ⟨e, later⟩ ⟨e', later'⟩ ⟨he, hlater⟩
  exact .ok ⟨he.nodes, hlater⟩

theorem Follows.keywordStatement (hg : Follows gone levels g g' depth)
    (h : Abreast gone levels before c c')
    (hkept : Kept gone levels before c c' x y) (hkeyword : x.kind = .token .keyword) (scope : Scope)
    (attributes attributes' : List Attribute) (hroom : 2 * c'.ahead.length + 1 ≤ depth) :
    Outcome.Follows (Along gone levels c c' SameOutline) (g.keywordStatement scope attributes x c)
      (g'.keywordStatement scope attributes' y c') := by
  have htext : y.text = x.text := hkept.alike.text_eq (by simp [hkeyword])
  have hlength := hkept.passes'.2
  have hlone : ¬Lone gone before c := not_lone_of_not_isOperator
    (hkept.next.trans (isOperator_of_kind_ne (by simp [hkeyword])))
  have hword : ∀ {word : String}, x.text = word → x.isKeyword word = true := fun hword =>
    Lexeme.isKeyword_iff.2 ⟨hkeyword, hword⟩
  have hjump : x.isKeyword "return" = true ∨ x.isKeyword "throw" = true →
      Outcome.Follows (Along gone levels c c' SameOutline) (g.jumpValue c.advance)
        (g'.jumpValue c'.advance) := by
    intro hjumps
    have hends : (x :: before).head?.any endsOperand = false := by
      rcases hjumps with hjumps | hjumps
      · exact endsOperand_of_isKeyword hjumps (by decide)
      · exact endsOperand_of_isKeyword hjumps (by decide)
    exact (hg.jumpValue hkept.later hends (by omega)).mono fun _ _ hvalue =>
      ⟨hvalue.1, hkept.onward.trans hvalue.2⟩
  have hlabel : Outcome.Follows (Along gone levels c c' SameOutline) (.ok ([], skipJumpLabel c.advance))
      (.ok ([], skipJumpLabel c'.advance)) :=
    .ok ⟨.nil, hkept.onward.trans hkept.later.skipJumpLabel⟩
  have hline : Outcome.Follows (Along gone levels c c' SameOutline) (do return ([], ← c.skipLine))
      (do return ([], ← c'.skipLine)) :=
    hkept.follows_skipLine.bind fun _ _ hlater => .ok ⟨.nil, hlater⟩
  rw [Grammar.keywordStatement, Grammar.keywordStatement, htext]
  split
  case h_1 | h_2 => exact hg.bindings hkept scope attributes attributes' (by omega)
  case h_3 | h_4 | h_5 | h_6 =>
    rename_i hfunction
    exact hg.function hkept hkeyword (by rw [hfunction]; decide) scope attributes attributes' (by omega)
  case h_7 | h_8 | h_9 | h_10 | h_11 | h_12 =>
    rename_i htype
    exact hg.typeDeclaration hkept hkeyword (by rw [htype]; decide) attributes attributes' (by omega)
  case h_13 hfor => exact hg.forEach hkept (hword hfor) (by omega)
  case h_14 hwhile => exact hg.whileLoop hkept (hword hwhile) (by omega)
  case h_15 => exact hg.repeatWhile hkept (by omega)
  case h_16 hif =>
    refine (hg.ifStatement h (hkept.next.trans (hword hif)) hroom).bind ?_
    rintro ⟨node, later⟩ ⟨node', later'⟩ hnode
    exact .ok hnode
  case h_17 hguard => exact hg.guardStatement hkept (hword hguard) (by omega)
  case h_18 hswitch => exact hg.switchStatement hkept (hword hswitch) (by omega)
  case h_19 => exact hg.doStatement hkept (by omega)
  case h_20 =>
    refine (hg.block hkept.later (by omega)).bind ?_
    rintro ⟨body, later⟩ ⟨body', later'⟩ ⟨⟨hbody, hlater⟩, -⟩
    exact .ok ⟨hbody, hkept.onward.trans hlater⟩
  case h_21 hreturn => exact hjump (.inl (hword hreturn))
  case h_22 hthrow => exact hjump (.inr (hword hthrow))
  case h_23 | h_24 | h_25 => exact hlabel
  case h_26 | h_27 | h_28 | h_29 | h_30 => exact hline
  case h_31 => exact hg.expressionStatement h (hkept.next.trans hkept.stays) hlone hroom

theorem LeadTaken.trans {later later' last last' : Cursor} (h : LeadTaken gone levels c c' later later')
    (h' : LeadTaken gone levels later later' last last') : LeadTaken gone levels c c' last last' := by
  refine ⟨h.onward.trans h'.onward, h'.stays, fun hoperator => ?_⟩
  obtain ⟨rfl, rfl⟩ := h'.isOperator hoperator
  exact h.isOperator hoperator

/-- No operator leads a statement, so a statement at an operator is an expression. -/
theorem statement_of_isOperator (hpeek : c.peek? = some x) (hx : x.isOperator = true) (scope : Scope) :
    g.statement scope c = g.expressionStatement c := by
  have hkind := kind_of_isOperator hx
  have hlabel : skipStatementLabel c = c := by
    rw [skipStatementLabel, Cursor.next_of_peek? hpeek, Lexeme.isIdentifier, hkind]
    rfl
  have hmodifier : modifierKind? c = none := by
    have hword : modifierWords.contains x.text = false :=
      Bool.eq_false_iff.2 fun hword => Bool.false_ne_true ((isOperator_of_modifier hword).symm.trans hx)
    have hattribute : x.isAttribute = false := by
      rw [Lexeme.isAttribute, hkind]
      rfl
    have hat : atModifier c = false := by
      rw [atModifier, hpeek]
      cases c.peekAt? 1 with
      | none => rfl
      | some follower => simp only [hword, Bool.false_and]
    rw [modifierKind?, hpeek]
    simp only [hattribute, hat, if_neg Bool.false_ne_true]
  have hmodifiers : modifiers c = .ok ([], c) := by
    rw [modifiers, repeatRounds, boundedRounds.eq_def, modifierRound, hmodifier]
  rw [statement, hlabel, hmodifiers]
  dsimp only [bind, Except.bind]
  rw [hpeek]
  dsimp only
  rw [hkind]

theorem Follows.statement (hg : Follows gone levels g g' depth) (h : Abreast gone levels before c c')
    (hkept : Kept gone levels before c c' x y) (hx : x.isOperator = false) (scope : Scope)
    (hroom : 2 * c'.ahead.length + 1 ≤ depth) :
    Outcome.Follows (Along gone levels c c' SameOutline) (g.statement scope c)
      (g'.statement scope c') := by
  have hlabel := hkept.skipStatementLabel h
  obtain ⟨_, h₁⟩ := hlabel.onward.abreast
  rw [Grammar.statement, Grammar.statement]
  refine (follows_modifiers h₁ hlabel.stays).bind ?_
  rintro ⟨attributes, c₂⟩ ⟨attributes', c₂'⟩ hmodifiers
  have hlead := hlabel.trans hmodifiers
  dsimp only at hlead ⊢
  obtain ⟨before₂, h₂⟩ := hlead.onward.abreast
  have hlength := hlead.onward.reaches'.length_le
  have hoperator : c₂.next Lexeme.isOperator = false := by
    refine Bool.eq_false_iff.2 fun hoperator => ?_
    obtain ⟨rfl, -⟩ := hlead.isOperator hoperator
    exact Bool.false_ne_true (hx.symm.trans (hkept.next.symm.trans hoperator))
  have hexpression : Outcome.Follows (Along gone levels c c' SameOutline) (g.expressionStatement c₂)
      (g'.expressionStatement c₂') :=
    (hg.expressionStatement h₂ hlead.stays (not_lone_of_not_isOperator hoperator) (by omega)).mono
      fun _ _ hlater => ⟨hlater.1, hlead.onward.trans hlater.2⟩
  cases h₂.meeting with
  | finished hahead hahead' =>
      rw [Cursor.peek?, Cursor.peek?, hahead, hahead']
      exact .ok ⟨.nil, hlead.onward⟩
  | dropped hdropped =>
      have hstays := hlead.stays
      rw [Cursor.next_of_peek? hdropped.peek, hdropped.goes] at hstays
      exact absurd hstays Bool.noConfusion
  | @kept z w hkept₂ =>
      rw [hkept₂.peek, hkept₂.peek']
      dsimp only
      rw [hkept₂.alike.kind]
      cases hkind : z.kind with
      | punctuation => exact hexpression
      | token kind =>
          cases kind with
          | identifier => exact hexpression
          | string => exact hexpression
          | comment => exact hexpression
          | keyword =>
              exact (hg.keywordStatement h₂ hkept₂ hkind scope attributes attributes' (by omega)).mono
                fun _ _ hlater => ⟨hlater.1, hlead.onward.trans hlater.2⟩
          | other =>
              dsimp only
              rw [hkept₂.alike.text_eq (by simp [hkind])]
              split
              · exact hkept₂.follows_skipLine.bind fun _ _ hlater =>
                  .ok ⟨.nil, hlead.onward.trans hlater⟩
              · exact hexpression

/-- One statement. If nothing there belongs to a statement, one lexeme is taken all the same. -/
def statementOrLexeme (g : Grammar) (scope : Scope) (c : Cursor) : Outcome (List Node × Cursor) := do
  let (nodes, later) ← g.statement scope c
  return (nodes, if c.hasStalled later then later.advance else later)

theorem Follows.statementOrLexeme (hg : Follows gone levels g g' depth)
    (h : Abreast gone levels before c c')
    (hkept : Kept gone levels before c c' x y) (scope : Scope)
    (hroom : 2 * c'.ahead.length + 1 ≤ depth) :
    Outcome.Follows (fun r r' => Along gone levels c c' SameOutline r r' ∧ c'.Passes r'.2)
      (g.statementOrLexeme scope c) (g'.statementOrLexeme scope c') := by
  rw [Grammar.statementOrLexeme, Grammar.statementOrLexeme]
  -- an operator may stand alone, where only what the caller does with it is the same in both readings
  cases hx : x.isOperator with
  | true =>
      rw [statement_of_isOperator hkept.peek hx,
        statement_of_isOperator hkept.peek' (hkept.alike.isOperator.trans hx)]
      have hexpression := hg.expressionOrLexeme h hkept hroom
      rw [Grammar.expressionOrLexeme, Grammar.expressionOrLexeme] at hexpression
      rw [Grammar.expressionStatement, Grammar.expressionStatement, bind_assoc, bind_assoc]
      exact hexpression
  | false =>
      refine (hg.statement h hkept hx scope hroom).bind ?_
      rintro ⟨more, later⟩ ⟨more', later'⟩ ⟨hmore, hlater⟩
      obtain ⟨honward, hpasses⟩ := hlater.unstalled h hkept
      exact .ok ⟨⟨hmore, honward⟩, hpasses⟩

theorem Follows.statementRound (hg : Follows gone levels g g' depth) (scope : Scope) (inSwitch : Bool)
    {nodes nodes' : List Node} {middle middle' : Cursor}
    (h : ListState gone levels c c' nodes middle nodes' middle')
    (hroom : 2 * c'.ahead.length + 1 ≤ depth) :
    (∃ more later, g.statementRound scope inSwitch nodes middle = .ok (.again more, later) ∧
      ListState gone levels c c' more later nodes' middle') ∨
    Outcome.Follows (Round.Pair (ListState gone levels c c')
      (Along gone levels c c' SameOutline) middle')
      (g.statementRound scope inSwitch nodes middle)
        (g'.statementRound scope inSwitch nodes' middle') := by
  obtain ⟨houtline, honward⟩ := h
  obtain ⟨before, habreast⟩ := honward.abreast
  have hlength := honward.reaches'.length_le
  cases habreast.meeting with
  | finished hahead hahead' =>
      right
      rw [Grammar.statementRound, Grammar.statementRound, Cursor.peek?, Cursor.peek?, hahead, hahead']
      exact .ok ⟨houtline, honward⟩
  | dropped hdropped =>
      -- the semicolon that goes is a round of its own, which the second reading has not
      left
      exact ⟨nodes, middle.advance, statementRound_of_semicolon hdropped.peek hdropped.semicolon _ _ _,
        houtline, honward.trans hdropped.onward⟩
  | @kept x y hkept =>
      right
      rw [Grammar.statementRound, Grammar.statementRound, hkept.peek, hkept.peek']
      dsimp only
      rw [hkept.alike.isSymbol, hkept.alike.isSymbol, hkept.alike.isKeyword, hkept.alike.isKeyword,
        hkept.alike.text_beq (by decide), hkept.alike.isCloser]
      split
      · exact .ok ⟨houtline, honward⟩
      · split
        · exact .ok ⟨⟨houtline, honward.trans hkept.onward⟩, hkept.passes'.2⟩
        · split
          · exact Outcome.follows_error _
          · have hfollows : Outcome.Follows
                (Round.Pair (ListState gone levels c c') (Along gone levels c c' SameOutline) middle')
                (g.statementOrLexeme scope middle >>= fun r => .ok (.again (nodes ++ r.1), r.2))
                (g'.statementOrLexeme scope middle' >>= fun r => .ok (.again (nodes' ++ r.1), r.2)) := by
              refine (hg.statementOrLexeme habreast hkept scope (by omega)).bind ?_
              rintro ⟨more, later⟩ ⟨more', later'⟩ ⟨⟨hmore, hlater⟩, hpasses⟩
              exact .ok ⟨⟨houtline.append hmore, honward.trans hlater⟩, hpasses.2⟩
            rw [Grammar.statementOrLexeme, Grammar.statementOrLexeme, bind_assoc, bind_assoc] at hfollows
            exact hfollows

theorem Follows.statementsBody (hg : Follows gone levels g g' depth)
    (h : Abreast gone levels before c c')
    (hroom : 2 * c'.ahead.length + 1 ≤ depth) (scope : Scope) (inSwitch : Bool) :
    Outcome.Follows (Along gone levels c c' SameOutline) (g.statementsBody scope inSwitch c)
      (g'.statementsBody scope inSwitch c') :=
  follows_repeatRounds (S := ListState gone levels c c')
    (fun _ _ _ _ _ hstate => hg.statementRound scope inSwitch hstate hroom) ⟨.nil, .refl h⟩

/-! ### Nesting -/

/-- One level deeper. -/
theorem Follows.deeper (hg : Follows gone levels g g' depth) {n : Nat} (hlevel : n < levels)
    (hn : g = ofDepth n) : Follows gone levels g.deeper g'.deeper (depth + 1) where
  level := ⟨n + 1, hlevel, by rw [hn]; rfl⟩
  level' := by
    rw [hg.level']
    rfl
  statements h hroom scope inSwitch := hg.statementsBody h (by omega) scope inSwitch
  expression h hnext hlone hroom trailing := hg.expressionBody h hnext hlone (by omega) trailing
  ifStatement h hif hroom := hg.ifBody h hif (by omega)

/-- The grammar without any nesting gives no results, so all grammars follow it. -/
theorem follows_exhausted (depth : Nat) : Follows gone levels exhausted (ofDepth depth) depth where
  level := ⟨0, Nat.zero_le _, rfl⟩
  level' := rfl
  statements _ _ _ _ := Outcome.follows_error _
  expression _ _ _ _ _ := Outcome.follows_error _
  ifStatement _ _ _ := Outcome.follows_error _

/-- No text has room in the grammar without any nesting, so nothing has to be followed there. -/
theorem follows_without_room {n : Nat} (hlevel : n ≤ levels) :
    Follows gone levels (ofDepth n) (ofDepth 0) 0 where
  level := ⟨n, hlevel, rfl⟩
  level' := rfl
  statements _ hroom := absurd hroom (by omega)
  expression _ _ _ hroom := absurd hroom (by omega)
  ifStatement _ _ hroom := absurd hroom (by omega)

/-- The grammar of any depth follows that of another depth, as far as the text has room in it. -/
theorem follows_ofDepth {n : Nat} (hlevel : n ≤ levels) (depth : Nat) :
    Follows gone levels (ofDepth n) (ofDepth depth) depth := by
  induction n generalizing depth with
  | zero => exact follows_exhausted depth
  | succ n ih =>
      cases depth with
      | zero => exact follows_without_room hlevel
      | succ depth => exact (ih (Nat.le_of_succ_le hlevel) depth).deeper hlevel rfl

/-! ### Files -/

/-- When it does not matter at any place of a file that semicolons go, the file without them has a
forest with the same outline. -/
theorem follows_file {sourceStop sourceStop' : Nat} (hthinned : Thinned gone [] lexemes others)
    (hharmless : Harmless gone sourceStop lexemes) (horder : Lexeme.InOrder 0 sourceStop lexemes)
    (horder' : Lexeme.InOrder 0 sourceStop' others) :
    Outcome.Follows SameOutline (file lexemes sourceStop) (file others sourceStop') := by
  have hstart : Abreast gone (depthBound lexemes.length) [] ⟨lexemes, 0, sourceStop⟩
      ⟨others, 0, sourceStop'⟩ := ⟨hthinned, hharmless, rfl, horder, horder'⟩
  have hg : Follows gone (depthBound lexemes.length) (ofDepth (depthBound lexemes.length))
      (ofDepth (depthBound others.length)) (depthBound others.length) :=
    follows_ofDepth (Nat.le_refl _) _
  rw [file, file]
  refine (hg.statements hstart (Nat.le_refl _) .topLevel false).bind ?_
  rintro ⟨nodes, later⟩ ⟨nodes', later'⟩ ⟨hnodes, hlater⟩
  obtain ⟨_, habreast⟩ := hlater.abreast
  dsimp only at habreast ⊢
  cases hpeek : later.peek? with
  | some stray => exact Outcome.follows_error _
  | none =>
      have hahead' : later'.ahead = [] := by
        cases habreast.meeting with
        | finished _ hahead' => exact hahead'
        | kept hkept => cases hpeek.symm.trans hkept.peek
        | dropped hdropped => cases hpeek.symm.trans hdropped.peek
      rw [Cursor.peek?, hahead']
      exact .ok hnodes

end SourceLint.Grammar
