import SourceLint.Proofs.Grammar.Faults.Basic

/-!
# Faults found while skipping

What steps over lexemes moves ahead, or finds fault with a lexeme on the way: a closing delimiter that fits no
opening one, or an opening one that the text does not close.
-/

namespace SourceLint

namespace Cursor

variable {start c : Cursor} {sourceStop lastStop : Nat} {opens ahead : List Lexeme} {x : Lexeme}

/-! ### Groups -/

theorem answers_skipOpen (stop : Lexeme → Bool) (h : start.Reaches ⟨ahead, lastStop, sourceStop⟩)
    (hopens : ∀ x ∈ opens, x ∈ start.ahead) :
    (skipOpen stop sourceStop opens lastStop ahead).Answers start fun _ => True := by
  induction ahead generalizing opens lastStop with
  | nil =>
      rw [skipOpen]
      split
      · rename_i opener hlast
        exact Outcome.answers_unclosed (hopens opener (List.mem_of_getLast? hlast))
      · trivial
  | cons lexeme ahead ih =>
      have hlexeme : lexeme ∈ start.ahead := h.mem_of_mem_ahead List.mem_cons_self
      have hnext : start.Reaches ⟨ahead, lexeme.stop, sourceStop⟩ := h.trans (.advance _)
      unfold skipOpen
      split
      · trivial
      · split
        · exact ih hnext (List.forall_mem_cons.2 ⟨hlexeme, hopens⟩)
        · split
          · split
            · split
              · exact ih hnext fun x hx => hopens x (List.mem_cons_of_mem _ hx)
              · exact Outcome.answers_unexpected hlexeme
            · exact Outcome.answers_unexpected hlexeme
          · exact ih hnext hopens

theorem answers_skipUntil (h : start.Reaches c) (stop : Lexeme → Bool) :
    (c.skipUntil stop).Answers start c.Reaches := by
  have hskip : (c.skipUntil stop).Answers start fun _ => True := answers_skipOpen stop h (by simp)
  exact hskip.meets (meets_skipUntil c stop)

theorem answers_skipGroup (h : start.Reaches c) : c.skipGroup.Answers start c.Reaches := by
  have hskip : c.skipGroup.Answers start fun _ => True := by
    rw [skipGroup]
    split
    · trivial
    · rename_i opener ahead hahead
      have hopener : opener ∈ start.ahead := h.mem_of_mem_ahead (by rw [hahead]; exact List.mem_cons_self)
      refine answers_skipOpen _ ?_ (List.forall_mem_singleton.2 hopener)
      rw [← advance_of_cons hahead]
      exact h.trans (.advance c)
  exact hskip.meets (meets_skipGroup c)

theorem answers_skipAttachedGroup (h : start.Reaches c) : c.skipAttachedGroup.Answers start c.Reaches := by
  rw [skipAttachedGroup]
  split
  · exact answers_skipGroup h
  · exact Reaches.refl c

theorem answers_skipLine (h : start.Reaches c) : c.skipLine.Answers start c.Reaches :=
  (answers_skipUntil (h.trans (.advance c)) _).mono fun _ => (Reaches.advance c).trans

theorem answers_skipToBrace (h : start.Reaches c) : c.skipToBrace.Answers start c.Reaches :=
  answers_skipUntil h _

theorem answers_skipCasePattern (h : start.Reaches c) : c.skipCasePattern.Answers start c.Reaches := by
  apply (answers_skipUntil h _).bind
  intro middle hmiddle
  split
  · exact hmiddle.trans (.advance middle)
  · exact Outcome.answers_expected (h.trans hmiddle) _

/-! ### Generic parameters -/

theorem answers_skipGenericOpen {depth : Int} (h : start.Reaches ⟨ahead, lastStop, sourceStop⟩)
    (hopens : ∀ x ∈ opens, x ∈ start.ahead) :
    (skipGenericOpen sourceStop depth opens lastStop ahead).Answers start fun _ => True := by
  induction ahead generalizing depth opens lastStop with
  | nil =>
      rw [skipGenericOpen]
      split
      · rename_i opener hlast
        exact Outcome.answers_unclosed (hopens opener (List.mem_of_getLast? hlast))
      · trivial
  | cons lexeme ahead ih =>
      have hlexeme : lexeme ∈ start.ahead := h.mem_of_mem_ahead List.mem_cons_self
      have hnext : start.Reaches ⟨ahead, lexeme.stop, sourceStop⟩ := h.trans (.advance _)
      unfold skipGenericOpen
      split
      · split
        · exact ih hnext (List.forall_mem_cons.2 ⟨hlexeme, hopens⟩)
        · split
          · exact ih hnext hopens
          · split
            · exact ih hnext fun x hx => hopens x (List.mem_cons_of_mem _ hx)
            · exact Outcome.answers_unexpected hlexeme
      · split
        · exact ih hnext (List.forall_mem_singleton.2 hlexeme)
        · split
          · trivial
          · dsimp only
            generalize (if lexeme.kind == .punctuation then depth + angleDepth lexeme else depth) = depth
            split
            · trivial
            · exact ih hnext (by simp)

theorem answers_skipGeneric (h : start.Reaches c) : c.skipGeneric.Answers start c.Reaches := by
  have hskip : c.skipGeneric.Answers start fun _ => True := answers_skipGenericOpen h (by simp)
  exact hskip.meets (meets_skipGeneric c)

theorem answers_skipGenericParameters (h : start.Reaches c) :
    c.skipGenericParameters.Answers start c.Reaches := by
  rw [skipGenericParameters]
  split
  · exact answers_skipGeneric h
  · exact Reaches.refl c

/-- Generic parameters that begin with an angle bracket have that bracket at least. -/
theorem meets_skipGeneric_passes (hpeek : c.peek? = some x) (hx : x.beginsWith '<' = true) :
    c.skipGeneric.Meets c.Passes := by
  obtain ⟨ahead, hahead⟩ := peek?_eq_some_iff.1 hpeek
  have hbehind : ∀ depth opens, (skipGenericOpen c.sourceStop depth opens x.stop ahead).Meets c.Passes := by
    intro depth opens
    apply (meets_skipGenericOpen c.sourceStop depth opens x.stop ahead).mono
    intro later hlater
    rw [← advance_of_cons hahead] at hlater
    exact (Passes.advance hpeek).trans_reaches hlater
  have hsymbol : ∀ text : String, text.toList.head? ≠ some '<' → x.isSymbol text = false := by
    intro text htext
    rw [Lexeme.isSymbol, Bool.and_eq_false_iff]
    refine .inr (beq_false_of_ne ?_)
    rintro rfl
    exact htext (eq_of_beq hx)
  have hends : (x.isSymbol "\x7b" || x.isCloser || x.isSymbol ";") = false := by
    rw [Lexeme.isCloser, hsymbol "\x7b" (by decide), hsymbol ")" (by decide), hsymbol "]" (by decide),
      hsymbol "\x7d" (by decide), hsymbol ";" (by decide)]
    rfl
  rw [skipGeneric, hahead, skipGenericOpen, hends]
  split
  · exact hbehind _ _
  · dsimp only
    rw [if_neg Bool.false_ne_true]
    generalize (if x.kind == .punctuation then 0 + angleDepth x else 0) = depth
    split
    · have hadvance := Passes.advance hpeek
      rwa [advance_of_cons hahead] at hadvance
    · exact hbehind _ _

/-! ### Types -/

theorem answers_typeRound (h : start.Reaches c) (expectsMore : Bool) :
    (typeRound expectsMore c).Answers start (Round.Advances c) := by
  have hstop : Outcome.Answers start (Round.Advances c)
      (.ok (.done (), c) : Outcome (Round Bool Unit × Cursor)) := Reaches.refl c
  rw [typeRound]
  dsimp only
  split
  · exact hstop
  · rename_i lexeme hpeek
    have hgo : ∀ more, Outcome.Answers start (Round.Advances c)
        (.ok (.again more, c.advance) : Outcome (Round Bool Unit × Cursor)) :=
      fun _ => Passes.advance hpeek
    have hgroup : Outcome.Answers start (Round.Advances c)
        (do let c ← c.skipGroup; return (Round.again false, c) : Outcome (Round Bool Unit × Cursor)) :=
      ((answers_skipGroup h).meets (meets_skipGroup_passes hpeek)).bind fun _ h => h
    split
    · exact hstop
    · split
      · split
        · exact hgo _
        · exact hstop
      · split
        · split
          · exact hgo _
          · exact hstop
        · split
          · exact hgo _
          · exact hstop
      · split
        · exact hgo _
        · exact hstop
      · split
        · exact hgroup
        · split
          · exact hgo _
          · split
            · exact hgo _
            · split
              · rename_i hangle
                have hbegins := (Bool.and_eq_true_iff.1 hangle).1
                exact ((answers_skipGeneric h).meets (meets_skipGeneric_passes hpeek hbegins)).bind
                  fun _ h => h
              · split
                · exact hgo _
                · exact hstop
      · exact hstop
      · exact hstop

theorem answers_skipType (h : start.Reaches c) : c.skipType.Answers start c.Reaches :=
  (answers_repeatRounds (fun state _ hmiddle => answers_typeRound (h.trans hmiddle) state) true).bind
    fun _ hlater => hlater

theorem answers_skipDeclaredType (h : start.Reaches c) : c.skipDeclaredType.Answers start c.Reaches := by
  rw [skipDeclaredType]
  split
  · exact (answers_skipType (h.trans (.advance c))).mono fun _ => (Reaches.advance c).trans
  · exact Reaches.refl c

/-! ### Expected lexemes -/

/-- The symbol that is taken is one of the lexemes of the text. -/
theorem answers_expectSymbol (h : start.Reaches c) (text : String) (what : Expectation) :
    (c.expectSymbol text what).Answers start fun r => c.Passes r.2 ∧ r.1 ∈ start.ahead := by
  rw [expectSymbol]
  split
  · rename_i lexeme hpeek
    split
    · exact ⟨.advance hpeek, h.mem_of_peek? hpeek⟩
    · exact Outcome.answers_expected h what
  · exact Outcome.answers_expected h what

theorem answers_expectKeyword (h : start.Reaches c) (word : String) :
    (c.expectKeyword word).Answers start c.Reaches := by
  rw [expectKeyword]
  split
  · exact Reaches.advance c
  · exact Outcome.answers_expected h _

theorem answers_expectCloser (h : start.Reaches c) (text : String) {opener : Lexeme}
    (hopener : opener ∈ start.ahead) :
    (c.expectCloser text opener).Answers start fun r => c.Passes r.2 := by
  rw [expectCloser]
  split
  · rename_i lexeme hpeek
    split
    · exact Passes.advance hpeek
    · split
      · exact Outcome.answers_unexpected (h.mem_of_peek? hpeek)
      · exact Outcome.answers_unclosed hopener
  · exact Outcome.answers_unclosed hopener

end Cursor

end SourceLint
