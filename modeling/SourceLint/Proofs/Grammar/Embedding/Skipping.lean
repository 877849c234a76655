import SourceLint.Proofs.Grammar.Embedding.Basic
import SourceLint.Proofs.Grammar.Skipping

/-!
# Skipping lexemes inside another text

What skips lexemes stops at the same place in both texts. At the end of the text most of it stops at a
separator as well; what looks for a brace or a colon does not, and then the second reading goes on in
the lexemes behind the text.
-/

namespace SourceLint.Embedding

variable {e : Embedding} {c c' d d' : Cursor} {x y : Lexeme} {lexemes others : List Lexeme}
    {lastStop lastStop' sourceStop sourceStop' : Nat} {stop : Lexeme → Bool}

/-! ### Groups -/

theorem isEmpty_eq {opens opens' : List Lexeme} (h : List.Forall₂ Lexeme.Alike opens opens') :
    opens'.isEmpty = opens.isEmpty := by
  cases h with
  | nil => rfl
  | cons => rfl

/-- Skipping stops at the same lexeme, unless it goes beyond the text. -/
theorem followsUnless_skipOpen (stop : Lexeme → Bool) (hstop : ∀ x y, e.Twin x y → stop y = stop x)
    {opens opens' : List Lexeme} (hopens : List.Forall₂ Lexeme.Alike opens opens')
    (h : e.Beside ⟨lexemes, lastStop, sourceStop⟩ ⟨others, lastStop', sourceStop'⟩) :
    Outcome.FollowsUnless (fun d => e.Over d ∧ e.rest.head?.any stop = false)
      (e.Onward ⟨lexemes, lastStop, sourceStop⟩)
      (Cursor.skipOpen stop sourceStop opens lastStop lexemes)
      (Cursor.skipOpen stop sourceStop' opens' lastStop' others) := by
  induction lexemes generalizing opens opens' others lastStop lastStop' with
  | nil =>
      obtain rfl : others = e.rest := h.ahead_of_nil rfl
      intro d hd hinside
      cases hopens with
      | nil =>
          obtain rfl : Cursor.mk [] lastStop sourceStop = d := Except.ok.inj hd
          refine ⟨_, ?_, h.onward⟩
          rcases e.rest_cases with hrest | ⟨separator, behind, hrest, -, -⟩
          · rw [hrest, Cursor.skipOpen, List.getLast?_nil]
          · have hstops : stop separator = true := by
              rw [← Bool.not_eq_false]
              exact fun hgoes => hinside ⟨⟨by simp [hrest], rfl⟩, by simp [hrest, hgoes]⟩
            rw [hrest, Cursor.skipOpen.eq_def]
            simp [hstops]
      | @cons opener opener' outer outer' hopener houter =>
          rw [Cursor.skipOpen, List.getLast?_cons] at hd
          cases hd
  | cons x lexemes ih =>
      obtain ⟨y, others, rfl, htwin, hnext⟩ := h.exists_twin
      have hlater : ∀ {opens opens' : List Lexeme}, List.Forall₂ Lexeme.Alike opens opens' →
          Outcome.FollowsUnless (fun d => e.Over d ∧ e.rest.head?.any stop = false)
            (e.Onward ⟨x :: lexemes, lastStop, sourceStop⟩)
            (Cursor.skipOpen stop sourceStop opens x.stop lexemes)
            (Cursor.skipOpen stop sourceStop' opens' y.stop others) := fun hopens =>
        (ih hopens hnext).mono fun _ _ honward => ⟨honward.1, Nat.le_succ_of_le honward.2⟩
      rw [Cursor.skipOpen.eq_def, Cursor.skipOpen.eq_def _ _ opens']
      dsimp only
      rw [isEmpty_eq hopens, hstop _ _ htwin, htwin.isOpener, htwin.isCloser]
      split
      · exact (Outcome.Follows.ok h.onward).unless
      · split
        · exact hlater (.cons htwin.toAlike hopens)
        · split
          · cases hopens with
            | nil => exact (Outcome.follows_error _).unless
            | cons hopener houter =>
                dsimp only
                rw [Lexeme.Alike.closes htwin.toAlike hopener]
                split
                · exact hlater houter
                · exact (Outcome.follows_error _).unless
          · exact hlater hopens

/-- The symbol `text` is taken at `c` in both texts. -/
structure Takes (e : Embedding) (text : String) (c : Cursor) (r r' : Lexeme × Cursor) : Prop where
  twin : e.Twin r.1 r'.1
  isSymbol : r.1.isSymbol text = true
  peek : c.peek? = some r.1
  advance : r.2 = c.advance
  beside : e.Beside r.2 r'.2
  taken : r.2.ahead.length < c.ahead.length

namespace Beside

/-- Skipping up to a lexeme that passes a test stops at the same lexeme, unless it goes beyond the
text. -/
theorem followsUnless_skipUntil (h : e.Beside c c') (hstop : ∀ x y, e.Twin x y → stop y = stop x) :
    Outcome.FollowsUnless e.Over (e.Onward c) (c.skipUntil stop) (c'.skipUntil stop) :=
  fun d hd hinside =>
    followsUnless_skipOpen stop hstop .nil h d hd fun hover => hinside hover.1

/-- Skipping up to a lexeme that passes a test stops at the same lexeme when a separator passes it. -/
theorem follows_skipUntil (h : e.Beside c c') (hstop : ∀ x y, e.Twin x y → stop y = stop x)
    (hseparator : ∀ separator : Lexeme, separator.isSymbol ";" = true →
      separator.isOnNewLine = true → stop separator = true) :
    Outcome.Follows (e.Onward c) (c.skipUntil stop) (c'.skipUntil stop) :=
  (followsUnless_skipOpen stop hstop .nil h).follows fun d hover => by
    rcases e.rest_cases with hrest | ⟨separator, behind, hrest, hsemicolon, hline⟩
    · exact hover.1.1 hrest
    · have hgoes := hover.2
      rw [hrest, List.head?_cons, Option.any_some, hseparator _ hsemicolon hline] at hgoes
      exact Bool.noConfusion hgoes

theorem follows_skipGroup (h : e.Beside c c') (hahead : c.ahead ≠ []) :
    Outcome.Follows (e.Onward c.advance) c.skipGroup c'.skipGroup := by
  obtain ⟨lexemes, lastStop, sourceStop⟩ := c
  obtain ⟨others, lastStop', sourceStop'⟩ := c'
  cases lexemes with
  | nil => exact absurd rfl hahead
  | cons x lexemes =>
      obtain ⟨y, others, rfl, htwin, hnext⟩ := h.exists_twin
      have hskip := followsUnless_skipOpen (fun _ => true) (fun _ _ _ => rfl)
        (.cons htwin.toAlike .nil) hnext
      refine hskip.follows fun d hover => ?_
      cases hrest : e.rest with
      | nil => exact hover.1.1 hrest
      | cons separator behind => simp [hrest] at hover

theorem follows_skipAttachedGroup (h : e.Beside c c') :
    Outcome.Follows (e.Onward c) c.skipAttachedGroup c'.skipAttachedGroup := by
  have hopens : c'.next (fun l => l.isSymbol "(" && !l.isApart) =
      c.next fun l => l.isSymbol "(" && !l.isApart := by
    refine h.next_eq (fun x y htwin => ?_) fun separator hsemicolon _ => ?_
    · rw [htwin.isSymbol, htwin.isApart]
    · rw [Grammar.isSymbol_of_semicolon hsemicolon (by decide), Bool.false_and]
  rw [Cursor.skipAttachedGroup, Cursor.skipAttachedGroup, hopens]
  split
  · rename_i hnext
    have hahead := ahead_ne_nil_of_next hnext
    exact (h.follows_skipGroup hahead).mono fun _ _ => (h.onward_advance hahead).trans
  · exact .ok h.onward

theorem follows_skipLine (h : e.Beside c c') (hahead : c.ahead ≠ []) :
    Outcome.Follows (e.Onward c) c.skipLine c'.skipLine := by
  refine ((h.advance hahead).follows_skipUntil (fun x y htwin => ?_)
    fun separator _ hline => ?_).mono fun _ _ => (h.onward_advance hahead).trans
  · rw [htwin.isOnNewLine, htwin.isCloser, htwin.isSymbol]
  · rw [hline, Bool.true_or, Bool.true_or]

theorem followsUnless_skipToBrace (h : e.Beside c c') :
    Outcome.FollowsUnless e.Over (e.Onward c) c.skipToBrace c'.skipToBrace :=
  h.followsUnless_skipUntil fun x y htwin => by rw [htwin.isSymbol, htwin.isCloser]

theorem follows_skipCasePattern (h : e.Beside c c') :
    Outcome.Follows (e.Onward c) c.skipCasePattern c'.skipCasePattern := by
  rw [Cursor.skipCasePattern, Cursor.skipCasePattern]
  refine (h.followsUnless_skipUntil fun x y htwin => ?_).bind_follows ?_ ?_
  · rw [htwin.isSymbol, htwin.isSymbol, htwin.isCloser]
  · rintro d ⟨-, hnil⟩ later hlater
    rw [Cursor.atSymbol, Cursor.next_of_nil hnil, if_neg Bool.false_ne_true] at hlater
    cases hlater
  · rintro d d' honward
    rw [honward.1.atSymbol_eq (by decide)]
    split
    · rename_i hcolon
      exact .ok (honward.trans (honward.1.onward_advance (ahead_ne_nil_of_next hcolon)))
    · exact Outcome.follows_error _

end Beside

/-! ### Generic parameters -/

theorem angleDepth_eq (h : e.Twin x y) (depth : Int) :
    (if y.kind == .punctuation then depth + Cursor.angleDepth y else depth) =
      if x.kind == .punctuation then depth + Cursor.angleDepth x else depth := by
  rw [h.kind]
  split
  · rename_i hkind
    rw [h.toAlike.angleDepth (beq_iff_eq.1 hkind)]
  · rfl

theorem follows_skipGenericOpen {depth : Int} {opens opens' : List Lexeme}
    (hopens : List.Forall₂ Lexeme.Alike opens opens')
    (h : e.Beside ⟨lexemes, lastStop, sourceStop⟩ ⟨others, lastStop', sourceStop'⟩) :
    Outcome.Follows (e.Onward ⟨lexemes, lastStop, sourceStop⟩)
      (Cursor.skipGenericOpen sourceStop depth opens lastStop lexemes)
      (Cursor.skipGenericOpen sourceStop' depth opens' lastStop' others) := by
  induction lexemes generalizing depth opens opens' others lastStop lastStop' with
  | nil =>
      obtain rfl : others = e.rest := h.ahead_of_nil rfl
      intro d hd
      cases hopens with
      | nil =>
          obtain rfl : Cursor.mk [] lastStop sourceStop = d := Except.ok.inj hd
          refine ⟨_, ?_, h.onward⟩
          rcases e.rest_cases with hrest | ⟨separator, behind, hrest, hsemicolon, -⟩
          · rw [hrest, Cursor.skipGenericOpen, List.getLast?_nil]
          · rw [hrest, Cursor.skipGenericOpen.eq_def]
            simp [hsemicolon, Grammar.isSymbol_of_semicolon hsemicolon]
      | @cons opener opener' outer outer' hopener houter =>
          rw [Cursor.skipGenericOpen, List.getLast?_cons] at hd
          cases hd
  | cons x lexemes ih =>
      obtain ⟨y, others, rfl, htwin, hnext⟩ := h.exists_twin
      have hlater : ∀ {depth : Int} {opens opens' : List Lexeme},
          List.Forall₂ Lexeme.Alike opens opens' →
          Outcome.Follows (e.Onward ⟨x :: lexemes, lastStop, sourceStop⟩)
            (Cursor.skipGenericOpen sourceStop depth opens x.stop lexemes)
            (Cursor.skipGenericOpen sourceStop' depth opens' y.stop others) := fun hopens =>
        (ih hopens hnext).mono fun _ _ honward => ⟨honward.1, Nat.le_succ_of_le honward.2⟩
      rw [Cursor.skipGenericOpen.eq_def, Cursor.skipGenericOpen.eq_def _ _ opens']
      cases hopens with
      | nil =>
          dsimp only
          rw [htwin.isSymbol, htwin.isSymbol, htwin.isSymbol, htwin.isSymbol, htwin.isCloser,
            angleDepth_eq htwin]
          generalize (if x.kind == .punctuation then depth + Cursor.angleDepth x else depth) = later
          split
          · exact hlater (.cons htwin.toAlike .nil)
          · split
            · exact .ok h.onward
            · split
              · exact .ok ⟨hnext, Nat.le_succ _⟩
              · exact hlater .nil
      | cons hopener houter =>
          dsimp only
          rw [htwin.isOpener, htwin.isCloser, Lexeme.Alike.closes htwin.toAlike hopener]
          split
          · exact hlater (.cons htwin.toAlike (.cons hopener houter))
          · split
            · exact hlater (.cons hopener houter)
            · split
              · exact hlater houter
              · exact Outcome.follows_error _

namespace Beside

theorem follows_skipGeneric (h : e.Beside c c') :
    Outcome.Follows (e.Onward c) c.skipGeneric c'.skipGeneric :=
  follows_skipGenericOpen .nil h

theorem follows_skipGenericParameters (h : e.Beside c c') :
    Outcome.Follows (e.Onward c) c.skipGenericParameters c'.skipGenericParameters := by
  have hangle : c'.next Grammar.isAngle = c.next Grammar.isAngle :=
    h.next_eq (fun x y htwin => htwin.isAngle) fun _ hsemicolon _ =>
      Grammar.isAngle_of_semicolon hsemicolon
  rw [Cursor.skipGenericParameters, Cursor.skipGenericParameters]
  change Outcome.Follows _ (if c.next Grammar.isAngle then _ else _)
    (if c'.next Grammar.isAngle then _ else _)
  rw [hangle]
  split
  · exact h.follows_skipGeneric
  · exact .ok h.onward

/-! ### Types -/

theorem next_isPostfixOperator_eq (h : e.Beside c c') :
    c'.next Lexeme.isPostfixOperator = c.next Lexeme.isPostfixOperator :=
  h.next_eq (fun _ _ htwin => htwin.isPostfixOperator) fun _ hsemicolon _ =>
    Grammar.isPostfixOperator_of_semicolon hsemicolon

theorem onward_skipPostfixOperator (h : e.Beside c c') :
    e.Onward c c.skipPostfixOperator c'.skipPostfixOperator := by
  rw [Cursor.skipPostfixOperator, Cursor.skipPostfixOperator, h.next_isPostfixOperator_eq]
  split
  · rename_i hnext
    exact h.onward_advance (ahead_ne_nil_of_next hnext)
  · exact h.onward

/-- A type ends at a separator. -/
theorem typeRound_rest (hahead : c'.ahead = e.rest) (expectsMore : Bool) :
    Cursor.typeRound expectsMore c' = .ok (.done (), c') := by
  rw [Cursor.typeRound]
  rcases peek?_rest hahead with hpeek | ⟨separator, hpeek, hsemicolon, -⟩
  · rw [hpeek]
  · obtain ⟨hkind, htext⟩ := Lexeme.isSymbol_iff.1 hsemicolon
    simp [hpeek, hkind, htext, Lexeme.beginsWith, Lexeme.isPostfixOperator]

theorem follows_typeRound (h : e.Onward c d d') (expectsMore : Bool) :
    Outcome.Follows (e.Steps id (e.Along id c) c) (Cursor.typeRound expectsMore d)
      (Cursor.typeRound expectsMore d') := by
  have hstop : Outcome.Follows (e.Steps id (e.Along id c) c)
      (.ok (.done (), d) : Outcome (Round Bool Unit × Cursor)) (.ok (.done (), d')) := .ok ⟨rfl, h⟩
  cases h.1.meeting with
  | finished hahead hahead' =>
      rw [typeRound_rest hahead', Cursor.typeRound, peek?_of_nil hahead]
      exact hstop
  | @both x y hpeek hpeek' htwin hnext htaken =>
      have hgo : ∀ more, Outcome.Follows (e.Steps id (e.Along id c) c)
          (.ok (.again more, d.advance) : Outcome (Round Bool Unit × Cursor))
          (.ok (.again more, d'.advance)) := fun more =>
        .ok ⟨rfl, hnext, Nat.le_trans (Nat.le_of_lt htaken) h.2⟩
      have hskip : ∀ {skipped skipped' : Outcome Cursor},
          Outcome.Follows (e.Onward d) skipped skipped' →
          Outcome.Follows (e.Steps id (e.Along id c) c)
            (do let later ← skipped; return (Round.again false, later) :
              Outcome (Round Bool Unit × Cursor))
            (do let later ← skipped'; return (.again false, later)) := fun hskipped =>
        hskipped.bind fun _ _ honward => .ok ⟨rfl, h.trans honward⟩
      rw [Cursor.typeRound, Cursor.typeRound, hpeek, hpeek']
      dsimp only
      rw [htwin.isOnNewLine, htwin.kind]
      split
      · exact hstop
      · cases hkind : x.kind with
        | punctuation =>
            dsimp only
            rw [htwin.text_eq (by simp [hkind]), htwin.beginsWith (by simp [hkind]), htwin.isApart,
              htwin.isPostfixOperator]
            split
            · exact hskip ((h.1.follows_skipGroup (ahead_ne_nil hpeek)).mono fun _ _ =>
                (h.1.onward_advance (ahead_ne_nil hpeek)).trans)
            · split
              · exact hgo _
              · split
                · exact hgo _
                · split
                  · exact hskip h.1.follows_skipGeneric
                  · split
                    · exact hgo _
                    · exact hstop
        | token kind =>
            cases kind with
            | string | comment => exact hstop
            | identifier =>
                dsimp only
                rw [htwin.text_beq (by decide), htwin.text_beq (by decide)]
                split
                · exact hgo _
                · exact hstop
            | keyword =>
                dsimp only
                rw [htwin.text_eq (by simp [hkind])]
                split
                · split
                  · exact hgo _
                  · exact hstop
                · split
                  · exact hgo _
                  · exact hstop
            | other =>
                dsimp only
                rw [htwin.beginsWith (by simp [hkind])]
                split
                · exact hgo _
                · exact hstop

theorem follows_skipType (h : e.Beside c c') :
    Outcome.Follows (e.Onward c) c.skipType c'.skipType := by
  rw [Cursor.skipType, Cursor.skipType]
  refine (h.follows_rounds (f := id) true fun more d d' honward =>
    follows_typeRound honward more).bind ?_
  rintro ⟨_, d⟩ ⟨_, d'⟩ ⟨-, honward⟩
  exact .ok honward

theorem follows_skipDeclaredType (h : e.Beside c c') :
    Outcome.Follows (e.Onward c) c.skipDeclaredType c'.skipDeclaredType := by
  rw [Cursor.skipDeclaredType, Cursor.skipDeclaredType, h.atSymbol_eq (by decide)]
  split
  · rename_i hcolon
    have honward := h.onward_advance (ahead_ne_nil_of_next hcolon)
    exact honward.1.follows_skipType.mono fun _ _ => honward.trans
  · exact .ok h.onward

/-! ### Expected lexemes -/

/-- Where a symbol is expected, the same lexeme is taken. -/
theorem follows_expectSymbol (h : e.Beside c c') (text : String) (what : Expectation) :
    Outcome.Follows (e.Takes text c) (c.expectSymbol text what) (c'.expectSymbol text what) := by
  rw [Cursor.expectSymbol, Cursor.expectSymbol]
  cases h.meeting with
  | finished hahead =>
      rw [peek?_of_nil hahead]
      exact Outcome.follows_error _
  | both hpeek hpeek' htwin hnext htaken =>
      rw [hpeek, hpeek']
      dsimp only
      rw [htwin.isSymbol]
      split
      · rename_i hsymbol
        exact .ok ⟨htwin, hsymbol, hpeek, rfl, hnext, htaken⟩
      · exact Outcome.follows_error _

theorem follows_expectKeyword (h : e.Beside c c') (word : String) :
    Outcome.Follows (e.Onward c) (c.expectKeyword word) (c'.expectKeyword word) := by
  rw [Cursor.expectKeyword, Cursor.expectKeyword, h.atKeyword_eq]
  split
  · rename_i hword
    exact .ok (h.onward_advance (ahead_ne_nil_of_next hword))
  · exact Outcome.follows_error _

theorem follows_expectCloser (h : e.Beside c c') (text : String) (opener opener' : Lexeme) :
    Outcome.Follows (fun r r' => e.Twin r.1 r'.1 ∧ e.Onward c r.2 r'.2)
      (c.expectCloser text opener) (c'.expectCloser text opener') := by
  rw [Cursor.expectCloser, Cursor.expectCloser]
  cases h.meeting with
  | finished hahead =>
      rw [peek?_of_nil hahead]
      exact Outcome.follows_error _
  | both hpeek hpeek' htwin hnext htaken =>
      rw [hpeek, hpeek']
      dsimp only
      rw [htwin.isSymbol, htwin.isCloser]
      split
      · exact .ok ⟨htwin, hnext, Nat.le_of_lt htaken⟩
      · split
        · exact Outcome.follows_error _
        · exact Outcome.follows_error _

/-- No closing delimiter is found at the end of the text. -/
theorem expectCloser_of_over (hover : e.Over c) (text : String) (opener : Lexeme)
    (r : Lexeme × Cursor) : c.expectCloser text opener ≠ .ok r := by
  rw [Cursor.expectCloser, Cursor.peek?, hover.2]
  intro h
  cases h

end Beside

end SourceLint.Embedding
