import SourceLint.Proofs.Grammar.Delimiters.Basic

/-!
# What is skipped nests

The skipping functions remember the groups that are open. `ClosesAll` says that the lexemes ahead close
them one after the other, which is what a run over the lexemes keeps.
-/

namespace SourceLint

namespace Lexeme

variable {lexeme : Lexeme}

theorem isDelimiter_of_isOperator (h : lexeme.isOperator = true) : lexeme.isDelimiter = false := by
  rw [isOperator, Bool.and_eq_true, Bool.or_eq_true, Bool.or_eq_true, beq_iff_eq, beq_iff_eq] at h
  obtain ⟨-, (hdots | hrange) | hhead⟩ := h
  · exact isDelimiter_of_text (hdots ▸ by decide)
  · exact isDelimiter_of_text (hrange ▸ by decide)
  · apply isDelimiter_of_chars (p := isOperatorChar) (by decide)
    cases hchar : lexeme.text.toList.head? with
    | none => rw [hchar] at hhead; cases hhead
    | some c => rwa [hchar] at hhead

theorem isDelimiter_of_isPostfixOperator (h : lexeme.isPostfixOperator = true) :
    lexeme.isDelimiter = false := by
  rw [isPostfixOperator, Bool.and_eq_true, Bool.and_eq_true] at h
  obtain ⟨⟨-, hnonempty⟩, hall⟩ := h
  apply isDelimiter_of_chars (p := fun c => c == '?' || c == '!') (by decide)
  cases hchars : lexeme.text.toList with
  | nil => rw [hchars] at hnonempty; cases hnonempty
  | cons c cs =>
      rw [hchars, List.all_cons, Bool.and_eq_true] at hall
      exact hall.1

end Lexeme

namespace Cursor

variable {opens xs ys later : List Lexeme} {lexeme opener : Lexeme}

/-- The open groups are closed, the innermost one first, and then `later` comes. -/
def ClosesAll : List Lexeme → List Lexeme → List Lexeme → Prop
  | [], xs, later => Grammar.Nests .code xs later
  | opener :: outer, xs, later => ∃ closer ys,
    closer.closes opener = true ∧ Grammar.Nests .code xs (closer :: ys) ∧ ClosesAll outer ys later

namespace ClosesAll

theorem of_nests (h : Grammar.Nests .code xs ys) (h' : ClosesAll opens ys later) :
    ClosesAll opens xs later := by
  cases opens with
  | nil => exact h.trans h'
  | cons opener outer =>
      obtain ⟨closer, zs, hcloses, hinside, hrest⟩ := h'
      exact ⟨closer, zs, hcloses, h.trans hinside, hrest⟩

theorem plain (hplain : lexeme.isDelimiter = false) (h : ClosesAll opens xs later) :
    ClosesAll opens (lexeme :: xs) later :=
  of_nests (.plain hplain) h

theorem of_open (h : ClosesAll (lexeme :: opens) xs later) : ClosesAll opens (lexeme :: xs) later := by
  obtain ⟨closer, ys, hcloses, hinside, hrest⟩ := h
  exact of_nests (.enclosed hcloses hinside) hrest

theorem of_close (hcloses : lexeme.closes opener = true) (h : ClosesAll opens xs later) :
    ClosesAll (opener :: opens) (lexeme :: xs) later :=
  ⟨lexeme, xs, hcloses, .refl _ _, h⟩

end ClosesAll

theorem meets_skipOpen_closesAll (stop : Lexeme → Bool) (sourceStop : Nat) (opens : List Lexeme)
    (lastStop : Nat) (ahead : List Lexeme) :
    (skipOpen stop sourceStop opens lastStop ahead).Meets
      fun later => ClosesAll opens ahead later.ahead := by
  induction ahead generalizing opens lastStop with
  | nil =>
      rw [skipOpen]
      split
      · exact Outcome.meets_unclosed _
      · rename_i hnone
        obtain rfl := List.getLast?_eq_none_iff.1 hnone
        exact .refl _ _
  | cons lexeme ahead ih =>
      unfold skipOpen
      split
      · rename_i hstop
        rw [Bool.and_eq_true, List.isEmpty_iff] at hstop
        obtain ⟨rfl, -⟩ := hstop
        exact .refl _ _
      · split
        · exact (ih (lexeme :: opens) lexeme.stop).mono fun _ => ClosesAll.of_open
        · rename_i hopener
          split
          · split
            · split
              · rename_i hcloses
                exact (ih _ lexeme.stop).mono fun _ => ClosesAll.of_close hcloses
              · exact Outcome.meets_unexpected _
            · exact Outcome.meets_unexpected _
          · rename_i hcloser
            have hplain : lexeme.isDelimiter = false := by
              rw [Lexeme.isDelimiter_eq, Bool.eq_false_iff.2 hopener, Bool.eq_false_iff.2 hcloser]
              rfl
            exact (ih opens lexeme.stop).mono fun _ => ClosesAll.plain hplain

theorem meets_skipUntil_nests (c : Cursor) (stop : Lexeme → Bool) :
    (c.skipUntil stop).Meets c.Nests :=
  meets_skipOpen_closesAll stop c.sourceStop [] c.lastStop c.ahead

theorem meets_skipGroup_nests (c : Cursor) : c.skipGroup.Meets c.Nests := by
  rw [skipGroup]
  split
  · exact Nests.refl c
  · rename_i opener ahead hahead
    apply (meets_skipOpen_closesAll _ c.sourceStop [opener] opener.stop ahead).mono
    intro later hlater
    have hgroup : ClosesAll [] (opener :: ahead) later.ahead := hlater.of_open
    rw [Nests, hahead]
    exact hgroup

theorem meets_skipAttachedGroup_nests (c : Cursor) : c.skipAttachedGroup.Meets c.Nests := by
  rw [skipAttachedGroup]
  split
  · exact meets_skipGroup_nests c
  · exact Nests.refl c

theorem meets_skipToBrace_nests (c : Cursor) : c.skipToBrace.Meets c.Nests := meets_skipUntil_nests c _

theorem meets_skipCasePattern_nests (c : Cursor) : c.skipCasePattern.Meets c.Nests := by
  apply (meets_skipUntil_nests c _).bind
  intro middle hmiddle
  split
  · rename_i hcolon
    exact hmiddle.trans (.advance_of_next hcolon fun _ h => Lexeme.isDelimiter_of_isSymbol h (by decide))
  · exact Outcome.meets_expected _ _

/-- The line behind a lexeme that is no delimiter. -/
theorem meets_skipLine_nests {c : Cursor} (hplain : c.Nests c.advance) : c.skipLine.Meets c.Nests :=
  (meets_skipUntil_nests c.advance _).mono fun _ => hplain.trans

theorem meets_skipGenericOpen_closesAll (sourceStop : Nat) (depth : Int) (opens : List Lexeme)
    (lastStop : Nat) (ahead : List Lexeme) :
    (skipGenericOpen sourceStop depth opens lastStop ahead).Meets
      fun later => ClosesAll opens ahead later.ahead := by
  induction ahead generalizing depth opens lastStop with
  | nil =>
      rw [skipGenericOpen]
      split
      · exact Outcome.meets_unclosed _
      · rename_i hnone
        obtain rfl := List.getLast?_eq_none_iff.1 hnone
        exact .refl _ _
  | cons lexeme ahead ih =>
      unfold skipGenericOpen
      split
      · split
        · exact (ih depth _ lexeme.stop).mono fun _ => ClosesAll.of_open
        · rename_i hopener
          split
          · rename_i hcloser
            have hplain : lexeme.isDelimiter = false := by
              rw [Bool.not_eq_true'] at hcloser
              rw [Lexeme.isDelimiter_eq, Bool.eq_false_iff.2 hopener, hcloser]
              rfl
            exact (ih depth _ lexeme.stop).mono fun _ => ClosesAll.plain hplain
          · split
            · rename_i hcloses
              exact (ih depth _ lexeme.stop).mono fun _ => ClosesAll.of_close hcloses
            · exact Outcome.meets_unexpected _
      · split
        · exact (ih depth [lexeme] lexeme.stop).mono fun _ => ClosesAll.of_open
        · rename_i hopener
          split
          · exact .refl _ _
          · rename_i hstop
            simp only [Bool.or_eq_true, not_or, Bool.not_eq_true] at hopener hstop
            have hplain : lexeme.isDelimiter = false := by
              rw [Lexeme.isDelimiter_eq, Lexeme.isOpener, hopener.1, hopener.2, hstop.1.1, hstop.1.2]
              rfl
            dsimp only
            generalize (if lexeme.kind == .punctuation then depth + angleDepth lexeme else depth) = depth
            split
            · exact Grammar.Nests.plain hplain
            · exact (ih depth [] lexeme.stop).mono fun _ => ClosesAll.plain hplain

theorem meets_skipGeneric_nests (c : Cursor) : c.skipGeneric.Meets c.Nests :=
  meets_skipGenericOpen_closesAll c.sourceStop 0 [] c.lastStop c.ahead

theorem meets_skipGenericParameters_nests (c : Cursor) : c.skipGenericParameters.Meets c.Nests := by
  rw [skipGenericParameters]
  split
  · exact meets_skipGeneric_nests c
  · exact Nests.refl c

theorem meets_typeRound_nests (expectsMore : Bool) (c : Cursor) :
    (typeRound expectsMore c).Meets fun r => c.Nests r.2 := by
  have hstop : Outcome.Meets (fun r : Round Bool Unit × Cursor => c.Nests r.2)
      (.ok (.done (), c)) := Nests.refl c
  have hgroup : Outcome.Meets (fun r : Round Bool Unit × Cursor => c.Nests r.2)
      (do let c ← c.skipGroup; return (.again false, c)) :=
    (meets_skipGroup_nests c).bind fun _ h => h
  have hgeneric : Outcome.Meets (fun r : Round Bool Unit × Cursor => c.Nests r.2)
      (do let c ← c.skipGeneric; return (.again false, c)) :=
    (meets_skipGeneric_nests c).bind fun _ h => h
  rw [typeRound]
  dsimp only
  split
  · exact hstop
  · rename_i lexeme hpeek
    have hgo : lexeme.isDelimiter = false → ∀ more,
        Outcome.Meets (fun r : Round Bool Unit × Cursor => c.Nests r.2)
          (.ok (.again more, c.advance)) := fun hplain _ => Nests.advance_of_peek? hpeek hplain
    split
    · exact hstop
    · split
      case h_1 hkind | h_2 hkind | h_3 hkind =>
        have hplain := Lexeme.isDelimiter_of_token hkind
        repeat' split
        all_goals first | exact hstop | exact hgo hplain _
      case h_4 hkind =>
        split
        · exact hgroup
        · split
          · rename_i htext
            refine hgo (Lexeme.isDelimiter_of_text ?_) _
            simp only [List.contains_iff_mem, List.mem_cons, List.not_mem_nil, or_false] at htext
            rcases htext with h | h | h <;> rw [h] <;> decide
          · split
            · rename_i hdots
              exact hgo (Lexeme.isDelimiter_of_text (eq_of_beq hdots ▸ by decide)) _
            · split
              · exact hgeneric
              · split
                · rename_i hmark
                  exact hgo (Lexeme.isDelimiter_of_isPostfixOperator hmark) _
                · exact hstop
      case h_5 | h_6 => exact hstop

theorem meets_skipType_nests (c : Cursor) : c.skipType.Meets c.Nests :=
  (meets_repeatRounds_nests meets_typeRound_nests true c).bind fun _ h => h

theorem meets_skipDeclaredType_nests (c : Cursor) : c.skipDeclaredType.Meets c.Nests := by
  rw [skipDeclaredType]
  split
  · rename_i hcolon
    have hplain : c.Nests c.advance :=
      .advance_of_next hcolon fun _ h => Lexeme.isDelimiter_of_isSymbol h (by decide)
    exact (meets_skipType_nests c.advance).mono fun _ => hplain.trans
  · exact Nests.refl c

theorem nests_skipPostfixOperator (c : Cursor) : c.Nests c.skipPostfixOperator := by
  rw [skipPostfixOperator]
  split
  · rename_i hmark
    exact .advance_of_next hmark fun _ => Lexeme.isDelimiter_of_isPostfixOperator
  · exact .refl c

/-! ### Expected lexemes -/

theorem meets_expectSymbol_ahead (c : Cursor) (text : String) (what : Expectation) :
    (c.expectSymbol text what).Meets fun r => r.1.isSymbol text = true ∧ c.ahead = r.1 :: r.2.ahead := by
  rw [expectSymbol]
  split
  · rename_i lexeme hpeek
    split
    · rename_i hsymbol
      exact ⟨hsymbol, ahead_of_peek? hpeek⟩
    · exact Outcome.meets_expected _ _
  · exact Outcome.meets_expected _ _

theorem meets_expectKeyword_ahead (c : Cursor) (word : String) :
    (c.expectKeyword word).Meets fun later =>
      ∃ keyword, keyword.isKeyword word = true ∧ c.ahead = keyword :: later.ahead := by
  rw [expectKeyword]
  split
  · rename_i hword
    obtain ⟨keyword, hpeek, hkeyword⟩ := (Option.any_eq_true _ _).1 hword
    exact ⟨keyword, hkeyword, ahead_of_peek? hpeek⟩
  · exact Outcome.meets_expected _ _

theorem meets_expectCloser_ahead (c : Cursor) (text : String) (opener : Lexeme) :
    (c.expectCloser text opener).Meets fun r => r.1.isSymbol text = true ∧ c.ahead = r.1 :: r.2.ahead := by
  rw [expectCloser]
  split
  · rename_i lexeme hpeek
    split
    · rename_i hsymbol
      exact ⟨hsymbol, ahead_of_peek? hpeek⟩
    · split
      · exact Outcome.meets_unexpected _
      · exact Outcome.meets_unclosed _
  · exact Outcome.meets_unclosed _

end Cursor

end SourceLint
