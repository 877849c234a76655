import SourceLint.Proofs.Grammar.Reading

/-!
# Skipping only moves ahead

What steps over lexemes takes some of them and gives no nodes. Each of the skipping functions either
fails with a fault of the text or stands at a cursor that is reached from its own one.
-/

namespace SourceLint

namespace Cursor

variable {sourceStop lastStop : Nat} {lexeme : Lexeme} {ahead : List Lexeme} {later : Cursor}

/-- What is reached behind the next lexeme is reached from before it. -/
theorem Reaches.cons (h : (Cursor.mk ahead lexeme.stop sourceStop).Reaches later) :
    (Cursor.mk (lexeme :: ahead) lastStop sourceStop).Reaches later :=
  (Reaches.advance (Cursor.mk (lexeme :: ahead) lastStop sourceStop)).trans h

/-- A repetition whose rounds only move ahead only moves ahead. -/
theorem meets_repeatRounds_reaches {σ β : Type}
    {round : σ → Cursor → Outcome (Round σ β × Cursor)}
    (hround : ∀ state c, (round state c).Meets fun r => c.Reaches r.2) (state : σ) (c : Cursor) :
    (repeatRounds round state c).Meets fun r => c.Reaches r.2 :=
  meets_repeatRounds_of_trans Reaches.refl Reaches.trans hround state c

theorem meets_skipOpen (stop : Lexeme → Bool) (sourceStop : Nat) (opens : List Lexeme)
    (lastStop : Nat) (ahead : List Lexeme) :
    (skipOpen stop sourceStop opens lastStop ahead).Meets
      (Cursor.mk ahead lastStop sourceStop).Reaches := by
  induction ahead generalizing opens lastStop with
  | nil =>
      rw [skipOpen]
      split
      · exact Outcome.meets_unclosed _
      · exact Reaches.refl _
  | cons lexeme ahead ih =>
      have hnext : ∀ opens, (skipOpen stop sourceStop opens lexeme.stop ahead).Meets
          (Cursor.mk (lexeme :: ahead) lastStop sourceStop).Reaches :=
        fun opens => (ih opens lexeme.stop).mono fun _ => Reaches.cons
      unfold skipOpen
      split
      · exact Reaches.refl _
      · split
        · exact hnext _
        · split
          · split
            · split
              · exact hnext _
              · exact Outcome.meets_unexpected _
            · exact Outcome.meets_unexpected _
          · exact hnext _

theorem meets_skipUntil (c : Cursor) (stop : Lexeme → Bool) : (c.skipUntil stop).Meets c.Reaches :=
  meets_skipOpen stop c.sourceStop [] c.lastStop c.ahead

theorem meets_skipGroup (c : Cursor) : c.skipGroup.Meets c.Reaches := by
  rw [skipGroup]
  split
  · exact Reaches.refl c
  · rename_i opener ahead hahead
    apply (meets_skipOpen _ c.sourceStop [opener] opener.stop ahead).mono
    intro later hlater
    rw [← advance_of_cons hahead] at hlater
    exact (Reaches.advance c).trans hlater

/-- A group that is skipped has its opening delimiter at least. -/
theorem meets_skipGroup_passes {c : Cursor} {opener : Lexeme} (hpeek : c.peek? = some opener) :
    c.skipGroup.Meets c.Passes := by
  obtain ⟨ahead, hahead⟩ := peek?_eq_some_iff.1 hpeek
  rw [skipGroup]
  rw [hahead]
  apply (meets_skipOpen _ c.sourceStop [opener] opener.stop ahead).mono
  intro later hlater
  rw [← advance_of_cons hahead] at hlater
  exact (Passes.advance hpeek).trans_reaches hlater

theorem meets_skipAttachedGroup (c : Cursor) : c.skipAttachedGroup.Meets c.Reaches := by
  rw [skipAttachedGroup]
  split
  · exact meets_skipGroup c
  · exact Reaches.refl c

theorem meets_skipLine (c : Cursor) : c.skipLine.Meets c.Reaches :=
  (meets_skipUntil c.advance _).mono fun _ => (Reaches.advance c).trans

theorem meets_skipToBrace (c : Cursor) : c.skipToBrace.Meets c.Reaches := meets_skipUntil c _

theorem meets_skipCasePattern (c : Cursor) : c.skipCasePattern.Meets c.Reaches := by
  apply (meets_skipUntil c _).bind
  intro middle hmiddle
  split
  · exact hmiddle.trans (.advance middle)
  · exact Outcome.meets_expected _ _

theorem meets_skipGenericOpen (sourceStop : Nat) (depth : Int) (opens : List Lexeme)
    (lastStop : Nat) (ahead : List Lexeme) :
    (skipGenericOpen sourceStop depth opens lastStop ahead).Meets
      (Cursor.mk ahead lastStop sourceStop).Reaches := by
  induction ahead generalizing depth opens lastStop with
  | nil =>
      rw [skipGenericOpen]
      split
      · exact Outcome.meets_unclosed _
      · exact Reaches.refl _
  | cons lexeme ahead ih =>
      have hnext : ∀ depth opens, (skipGenericOpen sourceStop depth opens lexeme.stop ahead).Meets
          (Cursor.mk (lexeme :: ahead) lastStop sourceStop).Reaches :=
        fun depth opens => (ih depth opens lexeme.stop).mono fun _ => Reaches.cons
      unfold skipGenericOpen
      split
      · split
        · exact hnext _ _
        · split
          · exact hnext _ _
          · split
            · exact hnext _ _
            · exact Outcome.meets_unexpected _
      · split
        · exact hnext _ _
        · split
          · exact Reaches.refl _
          · dsimp only
            generalize (if lexeme.kind == .punctuation then depth + angleDepth lexeme else depth) = depth
            split
            · exact (Reaches.refl _).cons
            · exact hnext _ _

theorem meets_skipGeneric (c : Cursor) : c.skipGeneric.Meets c.Reaches :=
  meets_skipGenericOpen c.sourceStop 0 [] c.lastStop c.ahead

theorem meets_skipGenericParameters (c : Cursor) : c.skipGenericParameters.Meets c.Reaches := by
  rw [skipGenericParameters]
  split
  · exact meets_skipGeneric c
  · exact Reaches.refl c

theorem meets_typeRound (expectsMore : Bool) (c : Cursor) :
    (typeRound expectsMore c).Meets fun r => c.Reaches r.2 := by
  have hstop : Outcome.Meets (fun r : Round Bool Unit × Cursor => c.Reaches r.2)
      (.ok (.done (), c)) := Reaches.refl c
  have hgo : ∀ more, Outcome.Meets (fun r : Round Bool Unit × Cursor => c.Reaches r.2)
      (.ok (.again more, c.advance)) := fun _ => Reaches.advance c
  have hgroup : Outcome.Meets (fun r : Round Bool Unit × Cursor => c.Reaches r.2)
      (do let c ← c.skipGroup; return (.again false, c)) :=
    (meets_skipGroup c).bind fun _ h => h
  have hgeneric : Outcome.Meets (fun r : Round Bool Unit × Cursor => c.Reaches r.2)
      (do let c ← c.skipGeneric; return (.again false, c)) :=
    (meets_skipGeneric c).bind fun _ h => h
  rw [typeRound]
  dsimp only
  repeat' split
  all_goals first | exact hstop | exact hgo _ | exact hgroup | exact hgeneric

theorem meets_skipType (c : Cursor) : c.skipType.Meets c.Reaches :=
  (meets_repeatRounds_reaches meets_typeRound true c).bind fun _ h => h

theorem meets_skipDeclaredType (c : Cursor) : c.skipDeclaredType.Meets c.Reaches := by
  rw [skipDeclaredType]
  split
  · exact (meets_skipType c.advance).mono fun _ => (Reaches.advance c).trans
  · exact Reaches.refl c

theorem reaches_skipPostfixOperator (c : Cursor) : c.Reaches c.skipPostfixOperator := by
  rw [skipPostfixOperator]
  split
  · exact .advance c
  · exact .refl c

/-! ### Expected lexemes -/

theorem meets_expectSymbol (c : Cursor) (text : String) (what : Expectation) :
    (c.expectSymbol text what).Meets fun r =>
      c.Passes r.2 ∧ c.here = r.1.start ∧ r.2.lastStop = r.1.stop := by
  rw [expectSymbol]
  split
  · rename_i lexeme hpeek
    split
    · exact ⟨.advance hpeek, here_of_peek? hpeek, lastStop_advance_of_peek? hpeek⟩
    · exact Outcome.meets_expected _ _
  · exact Outcome.meets_expected _ _

theorem meets_expectKeyword (c : Cursor) (word : String) :
    (c.expectKeyword word).Meets c.Reaches := by
  rw [expectKeyword]
  split
  · exact Reaches.advance c
  · exact Outcome.meets_expected _ _

theorem meets_expectCloser (c : Cursor) (text : String) (opener : Lexeme) :
    (c.expectCloser text opener).Meets fun r =>
      c.Passes r.2 ∧ c.here = r.1.start ∧ r.2.lastStop = r.1.stop := by
  rw [expectCloser]
  split
  · rename_i lexeme hpeek
    split
    · exact ⟨.advance hpeek, here_of_peek? hpeek, lastStop_advance_of_peek? hpeek⟩
    · split
      · exact Outcome.meets_unexpected _
      · exact Outcome.meets_unclosed _
  · exact Outcome.meets_unclosed _

end Cursor

end SourceLint
