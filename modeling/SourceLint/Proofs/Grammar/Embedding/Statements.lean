import SourceLint.Proofs.Grammar.Embedding.Declarations
import SourceLint.Proofs.Grammar.Statements

/-!
# Statements inside another text

Conditions, loops, branches and the statements of a block. From the productions one level of nesting
follows from the level below it, so every level of the one reading is followed by a deeper one of the
other.

## Main results

* `Embedding.follows_ofDepth` — a grammar follows a grammar that is not as deep.
-/

namespace SourceLint.Embedding

variable {e : Embedding} {c c' d d' : Cursor} {x y : Lexeme} {lexemes others : List Lexeme}
    {g g' : Grammar}

/-! ### Conditions -/

theorem follows_skipBinding (h : e.Beside c c') :
    Outcome.Follows (e.Onward c) (Grammar.skipBinding c) (Grammar.skipBinding c') := by
  rw [Grammar.skipBinding, Grammar.skipBinding, h.atSymbol_eq (by decide)]
  cases h.meeting with
  | finished hahead =>
      rw [Cursor.atSymbol, Cursor.next_of_nil hahead, peek?_of_nil hahead]
      exact Outcome.follows_error _
  | @both x y hpeek hpeek' htwin hnext htaken =>
      have honward := h.onward_advance (ahead_ne_nil hpeek)
      rw [hpeek, hpeek']
      split
      · exact (h.follows_skipGroup (ahead_ne_nil hpeek)).mono fun _ _ => honward.trans
      · exact .ok honward

/-- A clause is read alike, and there is one. -/
theorem Follows.clause (hg : e.Follows g g') (h : e.Beside c c') :
    Outcome.Follows (fun r r' => e.Along e.nodes c r r' ∧ c.ahead ≠ []) (g.clause c) (g'.clause c') := by
  rw [Grammar.clause, Grammar.clause, h.atKeyword_eq, h.atKeyword_eq, h.atKeyword_eq]
  split
  · rename_i hbinding
    have hahead : c.ahead ≠ [] := by
      rw [Bool.or_eq_true] at hbinding
      exact hbinding.elim ahead_ne_nil_of_next ahead_ne_nil_of_next
    have honward := h.onward_advance hahead
    refine (follows_skipBinding honward.1).bind ?_
    rintro c₁ c₁' h₁
    refine h₁.1.follows_skipDeclaredType.bind ?_
    rintro c₂ c₂' h₂
    have hbound := honward.trans (h₁.trans h₂)
    rw [h₂.1.atSymbol_eq (by decide)]
    split
    · rename_i hequals
      have hvalue := hbound.trans (h₂.1.onward_advance (ahead_ne_nil_of_next hequals))
      refine (hg.expression hvalue.1 false).bind ?_
      rintro ⟨found, later⟩ ⟨_, later'⟩ ⟨rfl, (hlater : e.Onward _ later later')⟩
      exact .ok ⟨⟨rfl, hvalue.trans hlater⟩, hahead⟩
    · exact .ok ⟨⟨(Relocation.nodes_nil _).symm, hbound⟩, hahead⟩
  · have hcase : e.Onward c (if c.atKeyword "case" then c.advance else c)
        (if c.atKeyword "case" then c'.advance else c') := by
      split
      · rename_i hcase
        exact h.onward_advance (ahead_ne_nil_of_next hcase)
      · exact h.onward
    dsimp only
    refine ((hg.expression hcase.1 false).and_eq).bind ?_
    rintro ⟨found, later⟩ ⟨_, later'⟩ ⟨⟨rfl, (hlater : e.Onward _ later later')⟩, hfound, -⟩
    change Outcome.Follows _ (if found.isPresent then _ else _) (if found.isPresent then _ else _)
    split
    · rename_i hpresent
      refine .ok ⟨⟨rfl, hcase.trans hlater⟩, fun hnil => ?_⟩
      have hword : c.atKeyword "case" = false := Cursor.next_of_nil hnil
      rw [hword, if_neg Bool.false_ne_true] at hfound
      rw [hg.absent hnil false _ hfound] at hpresent
      exact Bool.noConfusion hpresent
    · exact Outcome.follows_error _

/-- The nodes and the elements of a condition in the other text. -/
def condition (e : Embedding) : List Node × List Element → List Node × List Element :=
  Prod.map e.nodes (List.map e.element)

theorem Follows.conditionRound (hg : e.Follows g g') (h : e.Onward c d d')
    (state : List Node × List Element) :
    Outcome.Follows (e.Steps e.condition (e.Along e.condition c) c) (g.conditionRound state d)
      (g'.conditionRound (e.condition state) d') := by
  obtain ⟨nodes, elements⟩ := state
  rw [Grammar.conditionRound, Grammar.conditionRound]
  refine (hg.clause h.1).bind ?_
  rintro ⟨more, later⟩ ⟨_, later'⟩ ⟨⟨rfl, (hlater : e.Onward d later later')⟩, hahead⟩
  have honward := h.trans hlater
  have hstop : later'.lastStop = e.offset later.lastStop := hlater.1.lastStop
  dsimp only [condition, Prod.map]
  rw [hlater.1.atSymbol_eq (by decide), h.1.here_eq hahead, hstop]
  split
  · rename_i hcomma
    refine .ok ⟨?_, honward.trans (hlater.1.onward_advance (ahead_ne_nil_of_next hcomma))⟩
    simp [Relocation.element]
  · refine .ok ⟨?_, honward⟩
    simp [Relocation.element]

theorem Follows.conditions (hg : e.Follows g g') (h : e.Beside c c') :
    Outcome.Follows (e.Along e.condition c) (g.conditions c) (g'.conditions c') := by
  have hrounds := h.follows_rounds (f := e.condition) (R := e.Along e.condition c)
    ([], []) fun state d d' honward => hg.conditionRound honward state
  rw [condition, Prod.map, Relocation.nodes_nil, List.map_nil] at hrounds
  exact hrounds

/-! ### Loops -/

/-- The pattern of a loop ends at the same lexeme, which is there. -/
theorem follows_skipLoopPattern {depth patternStop lastStop lastStop' sourceStop sourceStop' : Nat}
    (h : e.Beside ⟨lexemes, lastStop, sourceStop⟩ ⟨others, lastStop', sourceStop'⟩) :
    Outcome.Follows
      (fun r r' => e.Along e.offset ⟨lexemes, lastStop, sourceStop⟩ r r' ∧ r.2.ahead ≠ [])
      (Grammar.skipLoopPattern sourceStop depth patternStop lastStop lexemes)
      (Grammar.skipLoopPattern sourceStop' depth (e.offset patternStop) lastStop' others) := by
  induction lexemes generalizing depth patternStop others lastStop lastStop' with
  | nil => exact Outcome.follows_error _
  | cons x lexemes ih =>
      obtain ⟨y, others, rfl, htwin, hnext⟩ := h.exists_twin
      have hlater : ∀ depth, Outcome.Follows
          (fun r r' => e.Along e.offset ⟨x :: lexemes, lastStop, sourceStop⟩ r r' ∧ r.2.ahead ≠ [])
          (Grammar.skipLoopPattern sourceStop depth x.stop x.stop lexemes)
          (Grammar.skipLoopPattern sourceStop' depth y.stop y.stop others) := by
        intro depth
        have hbehind := @ih _ depth x.stop _ _ hnext
        rw [← htwin.stop] at hbehind
        exact hbehind.mono fun _ _ ⟨hpair, hahead⟩ =>
          ⟨⟨hpair.1, hpair.2.1, Nat.le_succ_of_le hpair.2.2⟩, hahead⟩
      rw [Grammar.skipLoopPattern.eq_def, Grammar.skipLoopPattern.eq_def sourceStop']
      dsimp only
      rw [htwin.isKeyword, htwin.isSymbol, htwin.isSymbol, htwin.isSymbol, htwin.isSymbol,
        htwin.isSymbol]
      split
      · exact .ok ⟨⟨rfl, h.onward⟩, List.cons_ne_nil x lexemes⟩
      · split
        · exact Outcome.follows_error _
        · split
          · exact hlater _
          · split
            · cases depth with
              | zero => exact Outcome.follows_error _
              | succ depth => exact hlater _
            · exact hlater _

theorem Follows.whereClause (hg : e.Follows g g') (h : e.Beside c c') :
    Outcome.Follows (e.Along e.nodes c) (g.whereClause c) (g'.whereClause c') := by
  rw [Grammar.whereClause, Grammar.whereClause, h.atKeyword_eq]
  split
  · rename_i hwhere
    have honward := h.onward_advance (ahead_ne_nil_of_next hwhere)
    refine (hg.expression honward.1 false).bind ?_
    rintro ⟨found, later⟩ ⟨_, later'⟩ ⟨rfl, (hlater : e.Onward _ later later')⟩
    exact .ok ⟨rfl, honward.trans hlater⟩
  · exact .ok ⟨(Relocation.nodes_nil _).symm, h.onward⟩

theorem Follows.forEach (hg : e.Follows g g') (h : e.Beside c c') (htwin : e.Twin x y)
    (hahead : c.ahead ≠ []) :
    Outcome.Follows (e.Along e.nodes c) (g.forEach x c) (g'.forEach y c') := by
  have honward := h.onward_advance hahead
  have hleading := honward.1.onward_takeWhile (honward.1.takeWhile
    (fun l => l.isKeyword "case" || l.isKeyword "try" || l.isKeyword "await")
    (fun x y htwin => by rw [htwin.isKeyword, htwin.isKeyword, htwin.isKeyword])
    fun separator hsemicolon _ => by simp only [Grammar.isKeyword_of_semicolon hsemicolon, Bool.or_self])
  rw [Grammar.forEach, Grammar.forEach]
  dsimp only at hleading ⊢
  generalize c.advance.advanceBy _ = c₁ at hleading ⊢
  generalize c'.advance.advanceBy _ = c₁' at hleading ⊢
  cases hpattern : decide (c₁.ahead = []) with
  | true =>
      rw [of_decide_eq_true hpattern, Grammar.skipLoopPattern]
      exact Outcome.follows_error _
  | false =>
      rw [hleading.1.here_eq (of_decide_eq_false hpattern)]
      refine (follows_skipLoopPattern hleading.1).bind ?_
      rintro ⟨patternStop, c₂⟩ ⟨_, c₂'⟩ ⟨⟨rfl, (h₂ : e.Onward c₁ c₂ c₂')⟩, hpatternAhead⟩
      have hsequence : e.Onward c.advance c₂.advance c₂'.advance :=
        hleading.trans (h₂.trans (h₂.1.onward_advance hpatternAhead))
      refine ((hg.expression hsequence.1 false).and_eq).bind ?_
      rintro ⟨found, c₃⟩ ⟨_, c₃'⟩ ⟨⟨rfl, (h₃ : e.Onward _ c₃ c₃')⟩, hfound, -⟩
      change Outcome.Follows _ (if !found.isPresent then _ else _) (if !found.isPresent then _ else _)
      split
      · exact Outcome.follows_error _
      · rename_i hpresent
        have hsequenceAhead : c₂.advance.ahead ≠ [] := fun hnil =>
          hpresent (by rw [hg.absent hnil false _ hfound]; rfl)
        refine (hg.whereClause h₃.1).bind ?_
        rintro ⟨condition, c₄⟩ ⟨_, c₄'⟩ ⟨rfl, (h₄ : e.Onward c₃ c₄ c₄')⟩
        refine (hg.block h₄.1).bind ?_
        rintro ⟨body, c₅⟩ ⟨_, c₅'⟩ ⟨rfl, (h₅ : e.Onward c₄ c₅ c₅')⟩
        have hlater := hsequence.trans (h₃.trans (h₄.trans h₅))
        refine .ok ⟨?_, honward.trans hlater⟩
        simp [Relocation.node_eq, Relocation.element, Embedding.expression, htwin.start,
          hlater.1.lastStop, h₃.1.lastStop,
          hsequence.1.here_eq hsequenceAhead]

theorem Follows.whileLoop (hg : e.Follows g g') (h : e.Beside c c') (htwin : e.Twin x y)
    (hahead : c.ahead ≠ []) :
    Outcome.Follows (e.Along e.nodes c) (g.whileLoop x c) (g'.whileLoop y c') := by
  have honward := h.onward_advance hahead
  rw [Grammar.whileLoop, Grammar.whileLoop]
  refine (hg.conditions honward.1).bind ?_
  rintro ⟨⟨nodes, elements⟩, c₁⟩ ⟨_, c₁'⟩ ⟨rfl, (h₁ : e.Onward c.advance c₁ c₁')⟩
  refine (hg.block h₁.1).bind ?_
  rintro ⟨body, c₂⟩ ⟨_, c₂'⟩ ⟨rfl, (h₂ : e.Onward c₁ c₂ c₂')⟩
  have hlater := h₁.trans h₂
  refine .ok ⟨?_, honward.trans hlater⟩
  simp [Relocation.node_eq, htwin.start, hlater.1.lastStop]

theorem Follows.repeatWhile (hg : e.Follows g g') (h : e.Beside c c') (htwin : e.Twin x y)
    (hahead : c.ahead ≠ []) :
    Outcome.Follows (e.Along e.nodes c) (g.repeatWhile x c) (g'.repeatWhile y c') := by
  have honward := h.onward_advance hahead
  rw [Grammar.repeatWhile, Grammar.repeatWhile]
  refine (hg.block honward.1).bind ?_
  rintro ⟨body, c₁⟩ ⟨_, c₁'⟩ ⟨rfl, (h₁ : e.Onward c.advance c₁ c₁')⟩
  refine (h₁.1.follows_expectKeyword _).bind ?_
  rintro c₂ c₂' h₂
  have hbehind := h₁.trans h₂
  refine (hg.conditions h₂.1).bind ?_
  rintro ⟨⟨nodes, elements⟩, c₃⟩ ⟨_, c₃'⟩ ⟨rfl, (h₃ : e.Onward c₂ c₃ c₃')⟩
  have hlater := hbehind.trans h₃
  refine .ok ⟨?_, honward.trans hlater⟩
  simp [Relocation.node_eq, htwin.start, hlater.1.lastStop]

/-! ### Branches -/

theorem Follows.elseBranch (hg : e.Follows g g') (h : e.Beside c c') :
    Outcome.Follows (e.Along e.nodes c) (g.elseBranch c) (g'.elseBranch c') := by
  rw [Grammar.elseBranch, Grammar.elseBranch, h.atKeyword_eq]
  split
  · rename_i helse
    have honward := h.onward_advance (ahead_ne_nil_of_next helse)
    dsimp only
    rw [honward.1.atKeyword_eq]
    split
    · rename_i hif
      refine (hg.ifStatement honward.1 (ahead_ne_nil_of_next hif)).bind ?_
      rintro ⟨branch, later⟩ ⟨_, later'⟩ ⟨rfl, (hlater : e.Onward _ later later')⟩
      exact .ok ⟨by simp, honward.trans hlater⟩
    · refine (hg.block honward.1).bind ?_
      rintro ⟨branch, later⟩ ⟨_, later'⟩ ⟨rfl, (hlater : e.Onward _ later later')⟩
      exact .ok ⟨by simp, honward.trans hlater⟩
  · exact .ok ⟨(Relocation.nodes_nil _).symm, h.onward⟩

theorem Follows.ifBody (hg : e.Follows g g') (h : e.Beside c c') (hahead : c.ahead ≠ []) :
    Outcome.Follows (e.Along e.node c) (g.ifBody c) (g'.ifBody c') := by
  have honward := h.onward_advance hahead
  rw [Grammar.ifBody, Grammar.ifBody]
  refine (hg.conditions honward.1).bind ?_
  rintro ⟨⟨nodes, elements⟩, c₁⟩ ⟨_, c₁'⟩ ⟨rfl, (h₁ : e.Onward c.advance c₁ c₁')⟩
  refine (hg.block h₁.1).bind ?_
  rintro ⟨body, c₂⟩ ⟨_, c₂'⟩ ⟨rfl, (h₂ : e.Onward c₁ c₂ c₂')⟩
  refine (hg.elseBranch h₂.1).bind ?_
  rintro ⟨alternative, c₃⟩ ⟨_, c₃'⟩ ⟨rfl, (h₃ : e.Onward c₂ c₃ c₃')⟩
  have hlater := h₁.trans (h₂.trans h₃)
  refine .ok ⟨?_, honward.trans hlater⟩
  simp [Relocation.node_eq, h.here_eq hahead, hlater.1.lastStop]

theorem Follows.guardStatement (hg : e.Follows g g') (h : e.Beside c c') (htwin : e.Twin x y)
    (hahead : c.ahead ≠ []) :
    Outcome.Follows (e.Along e.nodes c) (g.guardStatement x c) (g'.guardStatement y c') := by
  have honward := h.onward_advance hahead
  rw [Grammar.guardStatement, Grammar.guardStatement]
  refine (hg.conditions honward.1).bind ?_
  rintro ⟨⟨nodes, elements⟩, c₁⟩ ⟨_, c₁'⟩ ⟨rfl, (h₁ : e.Onward c.advance c₁ c₁')⟩
  refine (h₁.1.follows_expectKeyword _).bind ?_
  rintro c₂ c₂' h₂
  refine (hg.block h₂.1).bind ?_
  rintro ⟨body, c₃⟩ ⟨_, c₃'⟩ ⟨rfl, (h₃ : e.Onward c₂ c₃ c₃')⟩
  have hlater := h₁.trans (h₂.trans h₃)
  refine .ok ⟨?_, honward.trans hlater⟩
  simp [Relocation.node_eq, htwin.start, hlater.1.lastStop]

theorem follows_skipCaseLabel (h : e.Beside c c') :
    Outcome.Follows (e.Onward c) (Grammar.skipCaseLabel c) (Grammar.skipCaseLabel c') := by
  have hunknown : (c'.next fun l => l.text == "@unknown") = c.next fun l => l.text == "@unknown" :=
    h.next_eq (fun _ _ htwin => htwin.text_beq (by decide)) fun separator hsemicolon _ => by
      rw [(Lexeme.isSymbol_iff.1 hsemicolon).2]
      decide
  have hfront : e.Onward c (if c.next fun l => l.text == "@unknown" then c.advance else c)
      (if c.next fun l => l.text == "@unknown" then c'.advance else c') := by
    split
    · rename_i hnext
      exact h.onward_advance (ahead_ne_nil_of_next hnext)
    · exact h.onward
  rw [Grammar.skipCaseLabel, Grammar.skipCaseLabel, hunknown]
  dsimp only
  generalize (if c.next fun l => l.text == "@unknown" then c.advance else c) = d at hfront ⊢
  generalize (if c.next fun l => l.text == "@unknown" then c'.advance else c') = d' at hfront ⊢
  rw [hfront.1.atKeyword_eq, hfront.1.atKeyword_eq]
  split
  · rename_i hcase
    have honward := hfront.trans (hfront.1.onward_advance (ahead_ne_nil_of_next hcase))
    exact honward.1.follows_skipCasePattern.mono fun _ _ => honward.trans
  · split
    · rename_i hdefault
      have honward := hfront.trans (hfront.1.onward_advance (ahead_ne_nil_of_next hdefault))
      refine (honward.1.follows_expectSymbol _ _).bind ?_
      rintro ⟨colon, later⟩ ⟨colon', later'⟩ hcolon
      exact .ok (honward.trans ⟨hcolon.beside, Nat.le_of_lt hcolon.taken⟩)
    · exact Outcome.follows_error _

/-- A clause is read alike, unless the text ends with it. -/
theorem Follows.caseRound (hg : e.Follows g g') (h : e.Onward c d d') (nodes : List Node) :
    Outcome.FollowsUnless (fun r => e.Over r.2) (e.Steps e.nodes (e.Along e.nodes c) c)
      (g.caseRound nodes d) (g'.caseRound (e.nodes nodes) d') := by
  rw [Grammar.caseRound, Grammar.caseRound]
  cases h.1.meeting with
  | finished hahead hahead' =>
      rw [peek?_of_nil hahead]
      rintro _ ⟨⟩ hinside
      have hrest : e.rest = [] := by
        by_contra hrest
        exact hinside ⟨hrest, hahead⟩
      have hpeek' : d'.peek? = none := peek?_of_nil (hahead'.trans hrest)
      rw [hpeek']
      exact ⟨_, rfl, rfl, h⟩
  | @both x y hpeek hpeek' htwin hnext htaken =>
      rw [hpeek, hpeek']
      dsimp only
      rw [htwin.isSymbol]
      split
      · exact (Outcome.Follows.ok ⟨rfl, h⟩).unless
      · refine (Outcome.FollowsUnless.bind (E := fun _ => False)
          (follows_skipCaseLabel h.1).unless (fun _ hover => hover.elim) ?_)
        rintro c₁ c₁' h₁
        refine (hg.statements h₁.1 _ _).bind ?_ ?_
        · rintro ⟨children, c₂⟩ hover _ ⟨⟩
          exact hover
        · rintro ⟨children, c₂⟩ ⟨_, c₂'⟩ ⟨rfl, (h₂ : e.Onward c₁ c₂ c₂')⟩
          have hlater := h₁.trans h₂
          refine (Outcome.Follows.ok ⟨?_, h.trans hlater⟩).unless
          simp [Relocation.node_eq, htwin.start, hlater.1.lastStop]

theorem Follows.clauses (hg : e.Follows g g') (h : e.Beside c c') :
    Outcome.FollowsUnless (fun r => e.Over r.2) (e.Along e.nodes c) (repeatRounds g.caseRound [] c)
      (repeatRounds g'.caseRound [] c') := by
  refine h.followsUnless_repeatRounds (S := fun s d s' d' => s' = e.nodes s ∧ e.Onward c d d')
    ?_ ?_ ⟨(Relocation.nodes_nil _).symm, h.onward⟩
  · rintro nodes d _ d' ⟨rfl, honward⟩
    exact hg.caseRound honward nodes
  · rintro nodes d r hnil hr
    rw [Grammar.caseRound, peek?_of_nil hnil] at hr
    obtain rfl := Except.ok.inj hr
    exact hnil

theorem Follows.switchStatement (hg : e.Follows g g') (h : e.Beside c c') (htwin : e.Twin x y)
    (hahead : c.ahead ≠ []) :
    Outcome.Follows (e.Along e.nodes c) (g.switchStatement x c) (g'.switchStatement y c') := by
  have honward := h.onward_advance hahead
  rw [Grammar.switchStatement, Grammar.switchStatement]
  refine (hg.expression honward.1 false).bind ?_
  rintro ⟨subject, c₁⟩ ⟨_, c₁'⟩ ⟨rfl, (h₁ : e.Onward c.advance c₁ c₁')⟩
  change Outcome.Follows _ (if !subject.isPresent then _ else _) (if !subject.isPresent then _ else _)
  split
  · exact Outcome.follows_error _
  · refine (h₁.1.follows_expectSymbol _ _).bind ?_
    rintro ⟨opener, c₂⟩ ⟨opener', c₂'⟩ hopening
    have hopener : e.Twin opener opener' := hopening.twin
    have h₂ : e.Onward c₁ c₂ c₂' := ⟨hopening.beside, Nat.le_of_lt hopening.taken⟩
    refine (hg.clauses h₂.1).bind_follows ?_ ?_
    · rintro ⟨clauses, c₃⟩ (hover : e.Over c₃) r hr
      obtain ⟨r', hr', -⟩ := Outcome.exists_of_bind hr
      exact Beside.expectCloser_of_over hover _ _ _ hr'
    · rintro ⟨clauses, c₃⟩ ⟨_, c₃'⟩ ⟨rfl, (h₃ : e.Onward c₂ c₃ c₃')⟩
      refine (h₃.1.follows_expectCloser _ _ _).bind ?_
      rintro ⟨closer, c₄⟩ ⟨closer', c₄'⟩
        ⟨(hcloser : e.Twin closer closer'), (h₄ : e.Onward c₃ c₄ c₄')⟩
      refine .ok ⟨?_, honward.trans (h₁.trans (h₂.trans (h₃.trans h₄)))⟩
      simp [Relocation.node_eq, Embedding.expression, htwin.start, hopener.stop, hcloser.start,
        hcloser.stop]

theorem Follows.catchRound (hg : e.Follows g g') (h : e.Onward c d d') (nodes : List Node) :
    Outcome.Follows (e.Steps e.nodes (e.Along e.nodes c) c) (g.catchRound nodes d)
      (g'.catchRound (e.nodes nodes) d') := by
  rw [Grammar.catchRound, Grammar.catchRound, h.1.atKeyword_eq]
  split
  · rename_i hcatch
    have honward := h.trans (h.1.onward_advance (ahead_ne_nil_of_next hcatch))
    refine honward.1.followsUnless_skipToBrace.bind_follows ?_ ?_
    · rintro later hover r hr
      obtain ⟨r', hr', -⟩ := Outcome.exists_of_bind hr
      obtain ⟨opener, hopener, -⟩ := Outcome.exists_of_bind hr'
      rw [Cursor.expectSymbol, peek?_of_nil hover.2] at hopener
      cases hopener
    · rintro later later' hlater
      refine (hg.block hlater.1).bind ?_
      rintro ⟨body, last⟩ ⟨_, last'⟩ ⟨rfl, (hlast : e.Onward later last last')⟩
      exact .ok ⟨by simp, honward.trans (hlater.trans hlast)⟩
  · exact .ok ⟨rfl, h⟩

theorem Follows.doStatement (hg : e.Follows g g') (h : e.Beside c c') (hahead : c.ahead ≠ []) :
    Outcome.Follows (e.Along e.nodes c) (g.doStatement c) (g'.doStatement c') := by
  have honward := h.onward_advance hahead
  rw [Grammar.doStatement, Grammar.doStatement]
  refine (hg.block honward.1).bind ?_
  rintro ⟨body, later⟩ ⟨_, later'⟩ ⟨rfl, (hlater : e.Onward _ later later')⟩
  have hrounds := hlater.1.follows_rounds (f := e.nodes) (R := e.Along e.nodes later) [body]
    fun nodes d d' hround => hg.catchRound hround nodes
  rw [Relocation.nodes_cons, Relocation.nodes_nil] at hrounds
  exact hrounds.mono fun _ _ hpair => ⟨hpair.1, honward.trans (hlater.trans hpair.2)⟩

/-! ### Single statements -/

theorem Follows.expressionStatement (hg : e.Follows g g') (h : e.Beside c c') :
    Outcome.Follows (e.Along e.nodes c) (g.expressionStatement c) (g'.expressionStatement c') := by
  rw [Grammar.expressionStatement, Grammar.expressionStatement]
  refine (hg.expression h true).bind ?_
  rintro ⟨found, later⟩ ⟨_, later'⟩ ⟨rfl, (hlater : e.Onward c later later')⟩
  exact .ok ⟨rfl, hlater⟩

theorem Follows.jumpValue (hg : e.Follows g g') (h : e.Beside c c') :
    Outcome.Follows (e.Along e.nodes c) (g.jumpValue c) (g'.jumpValue c') := by
  have hvalue : (c'.next fun l => !l.isOnNewLine && !l.isCloser && !l.isSymbol ";") =
      c.next fun l => !l.isOnNewLine && !l.isCloser && !l.isSymbol ";" := by
    refine h.next_eq (fun x y htwin => ?_) fun separator hsemicolon hline => ?_
    · rw [htwin.isOnNewLine, htwin.isCloser, htwin.isSymbol]
    · rw [hsemicolon, Bool.not_true, Bool.and_false]
  rw [Grammar.jumpValue, Grammar.jumpValue, hvalue]
  split
  · exact hg.expressionStatement h
  · exact .ok ⟨(Relocation.nodes_nil _).symm, h.onward⟩

theorem Beside.onward_skipJumpLabel (h : e.Beside c c') :
    e.Onward c (Grammar.skipJumpLabel c) (Grammar.skipJumpLabel c') := by
  have hlabel : (c'.next fun l => l.isIdentifier && !l.isOnNewLine) =
      c.next fun l => l.isIdentifier && !l.isOnNewLine := by
    refine h.next_eq (fun x y htwin => ?_) fun separator hsemicolon hline => ?_
    · rw [htwin.isIdentifier, htwin.isOnNewLine]
    · rw [hline, Bool.not_true, Bool.and_false]
  rw [Grammar.skipJumpLabel, Grammar.skipJumpLabel, hlabel]
  split
  · rename_i hnext
    exact h.onward_advance (ahead_ne_nil_of_next hnext)
  · exact h.onward

/-- The keywords of the statements that may have a label. -/
theorem Beside.atLabelled_eq (h : e.Beside c c') :
    (c'.next Lexeme.isIdentifier && (c'.peekAt? 1).any (fun l => l.isSymbol ":") &&
      (c'.peekAt? 2).any fun l => ["for", "while", "repeat", "switch", "if", "do"].any l.isKeyword) =
    (c.next Lexeme.isIdentifier && (c.peekAt? 1).any (fun l => l.isSymbol ":") &&
      (c.peekAt? 2).any fun l => ["for", "while", "repeat", "switch", "if", "do"].any l.isKeyword) := by
  have hname : c'.next Lexeme.isIdentifier = c.next Lexeme.isIdentifier :=
    h.next_eq (fun _ _ htwin => htwin.isIdentifier) fun separator hsemicolon _ => by
      rw [Lexeme.isIdentifier, (Lexeme.isSymbol_iff.1 hsemicolon).1]
      rfl
  rw [hname]
  cases h.meeting with
  | finished hahead => rw [Cursor.next_of_nil hahead, Bool.false_and, Bool.false_and, Bool.false_and,
      Bool.false_and]
  | @both x y hpeek hpeek' htwin hnext htaken =>
      rw [Cursor.peekAt?_one hpeek, Cursor.peekAt?_one hpeek', Bool.and_assoc, Bool.and_assoc]
      refine congrArg _ ?_
      change (c'.advance.atSymbol ":" && _) = (c.advance.atSymbol ":" && _)
      rw [hnext.atSymbol_eq (by decide)]
      cases hcolon : c.advance.atSymbol ":" with
      | false => rfl
      | true =>
          obtain ⟨colon, hpeekColon⟩ := Cursor.exists_peek?_of_next hcolon
          obtain ⟨colon', hpeekColon'⟩ :=
            Cursor.exists_peek?_of_next ((hnext.atSymbol_eq (by decide)).trans hcolon)
          rw [Cursor.peekAt?_two hpeek hpeekColon, Cursor.peekAt?_two hpeek' hpeekColon']
          refine congrArg _ ((hnext.advance (ahead_ne_nil hpeekColon)).next_eq (fun _ _ htwin => ?_)
            fun separator hsemicolon _ => ?_)
          · exact congrArg _ (funext htwin.isKeyword)
          · simp [Grammar.isKeyword_of_semicolon hsemicolon]

theorem Beside.onward_skipStatementLabel (h : e.Beside c c') :
    e.Onward c (Grammar.skipStatementLabel c) (Grammar.skipStatementLabel c') := by
  rw [Grammar.skipStatementLabel, Grammar.skipStatementLabel, h.atLabelled_eq]
  split
  · rename_i hlabel
    rw [Bool.and_eq_true, Bool.and_eq_true] at hlabel
    obtain ⟨x, hpeek⟩ := Cursor.exists_peek?_of_next hlabel.1.1
    rw [Cursor.peekAt?_one hpeek] at hlabel
    have honward := h.onward_advance (ahead_ne_nil hpeek)
    exact honward.trans (honward.1.onward_advance (ahead_ne_nil_of_next hlabel.1.2))
  · exact h.onward

theorem Follows.keywordStatement (hg : e.Follows g g') (h : e.Beside c c') (htwin : e.Twin x y)
    (hpeek : c.peek? = some x) (hkind : x.kind = .token .keyword) (scope : Scope)
    (attributes : List Attribute) :
    Outcome.Follows (e.Along e.nodes c) (g.keywordStatement scope attributes x c)
      (g'.keywordStatement scope (attributes.map e.modifier) y c') := by
  have hahead := ahead_ne_nil hpeek
  have honward := h.onward_advance hahead
  have hjump : Outcome.Follows (e.Along e.nodes c) (g.jumpValue c.advance)
      (g'.jumpValue c'.advance) :=
    (hg.jumpValue honward.1).mono fun _ _ hvalue => ⟨hvalue.1, honward.trans hvalue.2⟩
  have hlabel : Outcome.Follows (e.Along e.nodes c) (.ok ([], Grammar.skipJumpLabel c.advance))
      (.ok ([], Grammar.skipJumpLabel c'.advance)) :=
    .ok ⟨(Relocation.nodes_nil _).symm, honward.trans honward.1.onward_skipJumpLabel⟩
  have hline : Outcome.Follows (e.Along e.nodes c) (do return ([], ← c.skipLine))
      (do return ([], ← c'.skipLine)) :=
    (h.follows_skipLine hahead).bind fun _ _ hlater => .ok ⟨(Relocation.nodes_nil _).symm, hlater⟩
  rw [Grammar.keywordStatement, Grammar.keywordStatement, htwin.text_eq (by simp [hkind])]
  split
  case h_1 | h_2 => exact hg.bindings h hahead scope attributes
  case h_3 | h_4 | h_5 | h_6 => exact hg.function h htwin hahead scope attributes
  case h_7 | h_8 | h_9 | h_10 | h_11 | h_12 => exact hg.typeDeclaration h htwin hkind hahead attributes
  case h_13 => exact hg.forEach h htwin hahead
  case h_14 => exact hg.whileLoop h htwin hahead
  case h_15 => exact hg.repeatWhile h htwin hahead
  case h_16 =>
    refine (hg.ifStatement h hahead).bind ?_
    rintro ⟨node, later⟩ ⟨_, later'⟩ ⟨rfl, (hlater : e.Onward c later later')⟩
    exact .ok ⟨by simp, hlater⟩
  case h_17 => exact hg.guardStatement h htwin hahead
  case h_18 => exact hg.switchStatement h htwin hahead
  case h_19 => exact hg.doStatement h hahead
  case h_20 =>
    refine (hg.block honward.1).bind ?_
    rintro ⟨body, later⟩ ⟨_, later'⟩ ⟨rfl, (hlater : e.Onward _ later later')⟩
    exact .ok ⟨by simp, honward.trans hlater⟩
  case h_21 | h_22 => exact hjump
  case h_23 | h_24 | h_25 => exact hlabel
  case h_26 | h_27 | h_28 | h_29 | h_30 => exact hline
  case h_31 => exact hg.expressionStatement h

theorem Follows.statement (hg : e.Follows g g') (h : e.Beside c c') (scope : Scope) :
    Outcome.Follows (e.Along e.nodes c) (g.statement scope c) (g'.statement scope c') := by
  have hlabel := h.onward_skipStatementLabel
  rw [Grammar.statement, Grammar.statement]
  refine hlabel.1.follows_modifiers.bind ?_
  rintro ⟨attributes, c₁⟩ ⟨_, c₁'⟩ ⟨rfl, (h₁ : e.Onward _ c₁ c₁')⟩
  have honward := hlabel.trans h₁
  have hempty : e.Along e.nodes c ([], c₁) ([], c₁') := ⟨(Relocation.nodes_nil _).symm, honward⟩
  have hexpression : Outcome.Follows (e.Along e.nodes c) (g.expressionStatement c₁)
      (g'.expressionStatement c₁') :=
    (hg.expressionStatement h₁.1).mono fun _ _ hpair => ⟨hpair.1, honward.trans hpair.2⟩
  dsimp only
  cases h₁.1.meeting with
  | finished hahead hahead' =>
      rw [peek?_of_nil hahead]
      rcases peek?_rest hahead' with hpeek' | ⟨separator, hpeek', hsemicolon, -⟩
      · rw [hpeek']
        exact .ok hempty
      · have hrest : e.rest ≠ [] := by
          intro hnil
          rw [peek?_of_nil (hahead'.trans hnil)] at hpeek'
          cases hpeek'
        rw [hpeek']
        dsimp only
        rw [(Lexeme.isSymbol_iff.1 hsemicolon).1]
        dsimp only
        rw [Grammar.expressionStatement, hg.separator hahead' hrest]
        exact .ok hempty
  | @both x y hpeek hpeek' htwin hnext htaken =>
      rw [hpeek, hpeek']
      dsimp only
      rw [htwin.kind]
      cases hkind : x.kind with
      | punctuation => exact hexpression
      | token kind =>
          cases kind with
          | identifier | string | comment => exact hexpression
          | keyword =>
              refine (hg.keywordStatement h₁.1 htwin hpeek hkind scope attributes).mono ?_
              exact fun _ _ hpair => ⟨hpair.1, honward.trans hpair.2⟩
          | other =>
              dsimp only
              rw [htwin.text_eq (by simp [hkind])]
              split
              · refine (h₁.1.follows_skipLine (ahead_ne_nil hpeek)).bind fun _ _ hlater => ?_
                exact .ok ⟨(Relocation.nodes_nil _).symm, honward.trans hlater⟩
              · exact hexpression

/-! ### Blocks -/

theorem Follows.statementRound (hg : e.Follows g g') (h : e.Onward c d d') (scope : Scope)
    (inSwitch : Bool) (nodes : List Node) (hinside : d.ahead ≠ []) :
    Outcome.Follows (e.Steps e.nodes (e.Along e.nodes c) c) (g.statementRound scope inSwitch nodes d)
      (g'.statementRound scope inSwitch (e.nodes nodes) d') := by
  rw [Grammar.statementRound, Grammar.statementRound]
  cases h.1.meeting with
  | finished hahead => exact absurd hahead hinside
  | @both x y hpeek hpeek' htwin hnext htaken =>
      rw [hpeek, hpeek']
      dsimp only
      rw [htwin.isKeyword, htwin.isKeyword, htwin.text_beq (by decide), htwin.isSymbol, htwin.isSymbol,
        htwin.isCloser]
      split
      · exact .ok ⟨rfl, h⟩
      · split
        · exact .ok ⟨rfl, h.trans (h.1.onward_advance hinside)⟩
        · split
          · exact Outcome.follows_error _
          · refine (hg.statement h.1 scope).bind ?_
            rintro ⟨more, later⟩ ⟨_, later'⟩ ⟨rfl, (hlater : e.Onward d later later')⟩
            dsimp only
            rw [h.1.hasStalled_eq hlater.1]
            split
            · rename_i hstalled
              have hlaterAhead : later.ahead ≠ [] := by
                rw [Cursor.hasStalled, beq_iff_eq] at hstalled
                rwa [← List.length_pos_iff, ← hstalled, List.length_pos_iff]
              exact .ok ⟨by simp, h.trans (hlater.trans (hlater.1.onward_advance hlaterAhead))⟩
            · exact .ok ⟨by simp, h.trans hlater⟩

/-- At the end of a text there are no more statements. -/
theorem statementRound_of_nil (hahead : c.ahead = []) (scope : Scope) (inSwitch : Bool)
    (nodes : List Node) : g.statementRound scope inSwitch nodes c = .ok (.done nodes, c) := by
  rw [Grammar.statementRound, peek?_of_nil hahead]

theorem Follows.statementsBody (hg : e.Follows g g') (h : e.Beside c c') (scope : Scope)
    (inSwitch : Bool) :
    Outcome.FollowsUnless (fun r => e.Over r.2) (e.Along e.nodes c)
      (g.statementsBody scope inSwitch c) (g'.statementsBody scope inSwitch c') := by
  rw [Grammar.statementsBody, Grammar.statementsBody]
  refine h.followsUnless_repeatRounds (S := fun s d s' d' => s' = e.nodes s ∧ e.Onward c d d')
    ?_ ?_ ⟨(Relocation.nodes_nil _).symm, h.onward⟩
  · rintro nodes d _ d' ⟨rfl, honward⟩
    cases hahead : decide (d.ahead = []) with
    | false => exact (hg.statementRound honward scope inSwitch nodes (of_decide_eq_false hahead)).unless
    | true =>
        have hnil := of_decide_eq_true hahead
        rw [statementRound_of_nil hnil]
        rintro _ ⟨⟩ hinside
        have hrest : e.rest = [] := by
          by_contra hrest
          exact hinside ⟨hrest, hnil⟩
        rw [statementRound_of_nil ((honward.1.ahead_of_nil hnil).trans hrest)]
        exact ⟨_, rfl, rfl, honward⟩
  · rintro nodes d r hnil hr
    rw [statementRound_of_nil hnil] at hr
    obtain rfl := Except.ok.inj hr
    exact hnil

/-! ### Nesting -/

/-- There is no expression at the end of a text. -/
theorem expressionBody_of_nil (hahead : c.ahead = []) (trailing : Bool) :
    g.expressionBody trailing c = .ok (⟨[], false⟩, c) := by
  refine Grammar.expressionBody_of_primary (by rw [hahead]; rfl) ?_
  rw [Grammar.primary, peek?_of_nil hahead]

/-- There is no expression behind the text. -/
theorem expressionBody_rest (hahead : c'.ahead = e.rest) (trailing : Bool) :
    g.expressionBody trailing c' = .ok (⟨[], false⟩, c') := by
  rcases peek?_rest hahead with hpeek | ⟨separator, hpeek, hsemicolon, -⟩
  · rw [Cursor.peek?, List.head?_eq_none_iff] at hpeek
    exact expressionBody_of_nil hpeek trailing
  · exact Grammar.expressionBody_of_semicolon hpeek hsemicolon trailing

/-- One more level of nesting follows one more level of nesting. -/
theorem Follows.deeper (hg : e.Follows g g') : e.Follows g.deeper g'.deeper where
  sound := hg.sound.deeper
  statements h scope inSwitch := hg.statementsBody h scope inSwitch
  expression h trailing := hg.expressionBody h trailing
  ifStatement h hahead := hg.ifBody h hahead
  absent := by
    intro c hahead trailing r hr
    obtain rfl := Except.ok.inj ((expressionBody_of_nil hahead trailing).symm.trans hr)
    rfl
  separator hahead _ trailing := expressionBody_rest hahead trailing

/-- A grammar follows a grammar that is not as deep. Where something follows the text, it has to be
deeper. -/
theorem follows_ofDepth {depth depth' : Nat} (hdepth : depth ≤ depth')
    (hrest : e.rest = [] ∨ depth < depth') :
    e.Follows (Grammar.ofDepth depth) (Grammar.ofDepth depth') := by
  induction depth generalizing depth' with
  | zero =>
      constructor
      case sound => exact Grammar.sound_exhausted
      case statements => exact fun _ _ _ => (Outcome.follows_error _).unless
      case expression => exact fun _ _ => Outcome.follows_error _
      case ifStatement => exact fun _ _ => Outcome.follows_error _
      case absent => exact fun _ _ _ hr => nomatch hr
      case separator =>
        intro c' hahead hne trailing
        obtain ⟨levels, rfl⟩ := Nat.exists_eq_add_one_of_ne_zero
          (Nat.ne_of_gt (hrest.resolve_left hne))
        exact expressionBody_rest hahead trailing
  | succ depth ih =>
      obtain ⟨levels, rfl⟩ := Nat.exists_eq_add_of_le hdepth
      have hlevels := @ih (depth + levels) (Nat.le_add_right _ _) (hrest.imp_right fun hlt => by omega)
      rw [Nat.add_right_comm]
      exact hlevels.deeper

end SourceLint.Embedding
