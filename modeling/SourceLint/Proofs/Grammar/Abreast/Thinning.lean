import SourceLint.Proofs.Grammar.Abreast.Cursors
import SourceLint.Proofs.Syntax.Retouching

/-!
# The lexemes of a retouched text

A retouched text has the significant lexemes of the text before without the semicolons that go. Only
next to commas may two of them stand apart in the one text and not in the other.

## Implementation notes

The gap before a significant lexeme is the blanks and the comments since the last one. `GapsAlike`
says what the induction needs of the two gaps as they are at some place: it allows for a space that
has been put in behind a comma and for spacing that has been taken away before one. At the end of a
line from which a semicolon goes nothing has to be said, since the newline is still to come in both
texts.
-/

namespace SourceLint

open Mark Lexeme Grammar
open TrailingSemicolon (isRestBlank isRestBlank_spacing isRestBlank_cons)

namespace Mark

/-- Spacing is layout. -/
theorem isSpacing_of_not_isLayout {c : Char} (h : isLayout c = false) : isSpacing c = false := by
  rw [Bool.eq_false_iff]
  intro hspacing
  cases h.symm.trans (isLayout_of_isSpacing hspacing)

/-- At a newline the line ends. -/
theorem isRestBlank_of_head {cs : List Char} (h : cs.head?.all (· == '\n') = true) :
    isRestBlank cs = true := by
  cases cs with
  | nil => rfl
  | cons c cs =>
      rw [List.head?_cons, Option.all_some, beq_iff_eq] at h
      rw [h, isRestBlank_cons rfl]
      rfl

end Mark

namespace Shading

variable {offset line : Nat} {gap pre : String} {c : Char} {marks : List Mark}
    {placed : List PlacedLexeme}

/-! ### What a text is cut into -/

theorem of_blank {m : Mark} (h : Shading offset gap line (m :: marks) placed)
    (hlayout : isLayout m.char = true) :
    Shading (offset + m.char.utf8Size) (gap.push m.char) (lineAfter line m.char) marks placed := by
  generalize hmarks : m :: marks = whole at h
  cases h with
  | done => cases hmarks
  | blank _ later =>
      obtain ⟨rfl, rfl⟩ := List.cons.inj hmarks
      exact later
  | lexeme layout _ _ =>
      obtain ⟨rfl, -⟩ := List.cons.inj hmarks
      cases hlayout.symm.trans layout

/-- A text with a lexeme at its beginning is cut behind the lexeme. -/
theorem of_lexeme (body : List Char) {kind : LexemeKind} {shielded : Bool}
    (h : Shading offset gap line (ofChars shielded line (c :: body) ++ marks) placed)
    (hlayout : isLayout c = false)
    (measured : measure offset c (body ++ chars marks) = .ok (kind, body.length)) :
    ∃ later, placed = (line, ⟨kind, gap, offset, String.ofList (c :: body)⟩) :: later ∧
      Shading (offset + byteLength (c :: body)) "" (line + (c :: body).count '\n') marks later := by
  generalize hmarks : ofChars shielded line (c :: body) ++ marks = whole at h
  cases h with
  | done => cases hmarks
  | blank layout _ =>
      have hchar := congrArg Mark.char (List.cons.inj hmarks).1
      simp only at hchar
      rw [hchar, layout] at hlayout
      cases hlayout
  | @lexeme _ _ _ d piece found rest later _ measured' hlater =>
      have hchars := congrArg chars hmarks
      rw [chars_append, chars_append, chars_ofChars, chars_ofChars] at hchars
      obtain ⟨rfl, hbehind⟩ : c = d ∧ body ++ chars marks = piece ++ chars rest := List.cons.inj hchars
      rw [← hbehind, measured] at measured'
      obtain ⟨rfl, hlength⟩ := Prod.mk.inj (Except.ok.inj measured')
      obtain ⟨rfl, -⟩ := List.append_inj hbehind hlength
      obtain ⟨-, rfl⟩ := List.append_inj hmarks (by rw [length_ofChars, length_ofChars])
      exact ⟨later, rfl, hlater⟩

/-! ### Lines -/

/-- Behind a newline the next significant lexeme is on a new line. -/
theorem head_isOnNewLine (h : Shading offset gap line marks placed)
    (hnewline : '\n' ∈ (pre ++ gap).toList) :
    (significant pre (placed.map Prod.snd)).head?.all isOnNewLine = true := by
  induction h generalizing pre with
  | done => rfl
  | blank layout later ih =>
      apply ih
      rw [String.toList_append] at hnewline ⊢
      rw [String.toList_push, ← List.append_assoc]
      exact List.mem_append_left _ hnewline
  | @lexeme offset line gap c body kind marks placed layout measured later ih =>
      rw [List.map_cons]
      cases hcomment : (⟨kind, gap, offset, String.ofList (c :: body)⟩ : Lexeme).isComment with
      | true =>
          rw [significant_comment hcomment]
          apply ih
          rw [String.toList_append, String.toList_append]
          exact List.mem_append_left _ (List.mem_append_left _ hnewline)
      | false =>
          rw [significant_other hcomment]
          exact List.contains_iff_mem.2 hnewline

/-- At the end of a line the next significant lexeme is on a new line. -/
theorem head_isOnNewLine_of_isRestBlank (h : Shading offset gap line marks placed)
    (hends : isRestBlank (chars marks) = true) :
    (significant pre (placed.map Prod.snd)).head?.all isOnNewLine = true := by
  induction h with
  | done => rfl
  | @blank offset line gap c marks placed layout later ih =>
      rw [chars_cons] at hends
      cases hspacing : isSpacing c with
      | true => exact ih (by rwa [isRestBlank_spacing hspacing] at hends)
      | false =>
          rw [isRestBlank_cons hspacing, Bool.or_eq_true, Bool.and_eq_true, beq_iff_eq,
            beq_iff_eq] at hends
          rcases hends with rfl | ⟨rfl, hnewline⟩
          · exact later.head_isOnNewLine (by simp)
          · exact ih (isRestBlank_of_head hnewline)
  | @lexeme offset line gap c body kind marks placed layout measured later ih =>
      rw [ofChars, List.cons_append, chars_cons, isRestBlank_cons (isSpacing_of_not_isLayout layout),
        Bool.or_eq_true, Bool.and_eq_true, beq_iff_eq, beq_iff_eq] at hends
      rcases hends with rfl | ⟨rfl, -⟩
      · cases layout
      · cases layout

/-! ### Gaps -/

/-- The gaps before a significant lexeme, which are read up to some place of a text, are alike. -/
structure GapsAlike (before : List Lexeme) (gap gap' : List Char) (marks : List Mark) : Prop where
  newline : gap'.contains '\n' = gap.contains '\n'
  apart : gap'.isEmpty = gap.isEmpty ∨
    before.head?.any (fun l => l.isSymbol ",") = true ∧ gap'.isEmpty = false ∨
      gap.isEmpty = false ∧ beforeComma marks = true

/-- The gaps are alike, or the line ends. -/
def GapsMeet (goes : List Mark → Bool) (before : List Lexeme) (gap gap' : List Char)
    (marks : List Mark) : Prop :=
  isClosing goes marks = true ∨ GapsAlike before gap gap' marks

/-- A comma stands before the gap, and in it a space has been put in. -/
structure BehindComma (before : List Lexeme) (gap' : List Char) : Prop where
  comma : before.head?.any (fun l => l.isSymbol ",") = true
  apart : gap'.isEmpty = false

variable {goes : List Mark → Bool} {before : List Lexeme} {gap₁ gap₂ : List Char} {m : Mark}

theorem isEmpty_append {cs : List Char} (hcs : cs ≠ []) (gap : List Char) :
    (gap ++ cs).isEmpty = false := by
  rw [List.isEmpty_eq_false_iff, ne_eq, List.append_eq_nil_iff]
  exact fun h => hcs h.2

/-- Gaps that go on in the same way are alike. -/
theorem GapsAlike.append {cs : List Char} (hcs : cs ≠ [])
    (hnewline : gap₂.contains '\n' = gap₁.contains '\n') :
    GapsAlike before (gap₁ ++ cs) (gap₂ ++ cs) marks where
  newline := by
    rw [Bool.eq_iff_iff, List.contains_iff_mem, List.contains_iff_mem] at hnewline ⊢
    rw [List.mem_append, List.mem_append, hnewline]
  apart := .inl (by rw [isEmpty_append hcs, isEmpty_append hcs])

/-- A lexeme after gaps that are alike stands apart alike. -/
theorem GapsAlike.apartAlike {x y : Lexeme} (h : GapsAlike before x.gap.toList y.gap.toList (m :: marks))
    (hfree : m.isFree = false) (hcomma : m.isComma = true → x.isSymbol "," = true) :
    ApartAlike before x y := by
  rcases h.apart with happarts | ⟨hbehind, hgap⟩ | ⟨hgap, hnext⟩
  · exact .inl (by rw [isApart, isApart, happarts])
  · exact .inr (.inr ⟨hbehind, by rw [isApart, hgap]; rfl⟩)
  · rw [beforeComma, hfree, Bool.false_and, Bool.or_false] at hnext
    exact .inr (.inl ⟨hcomma hnext, by rw [isApart, hgap]; rfl⟩)

namespace GapsMeet

theorem refl (goes : List Mark → Bool) (before : List Lexeme) (gap : List Char) (marks : List Mark) :
    GapsMeet goes before gap gap marks :=
  .inr ⟨rfl, .inl rfl⟩

/-- A blank that stays belongs to both gaps. -/
theorem push (h : GapsMeet goes before gap₁ gap₂ (m :: marks))
    (stays : isGoing goes (m :: marks) = false) :
    GapsMeet goes before (gap₁ ++ [m.char]) (gap₂ ++ [m.char]) marks := by
  have hne : [m.char] ≠ [] := List.cons_ne_nil _ _
  rcases h with hends | halike
  · rw [isClosing, stays, Bool.or_false, chars_cons] at hends
    cases hspacing : isSpacing m.char with
    | true =>
        rw [isRestBlank_spacing hspacing] at hends
        exact .inl (Bool.or_eq_true_iff.2 (.inl hends))
    | false =>
        rw [isRestBlank_cons hspacing, Bool.or_eq_true, Bool.and_eq_true, beq_iff_eq,
          beq_iff_eq] at hends
        rcases hends with hnewline | ⟨-, hnewline⟩
        · refine .inr ⟨by simp [hnewline], .inl ?_⟩
          rw [isEmpty_append hne, isEmpty_append hne]
        · exact .inl (Bool.or_eq_true_iff.2 (.inl (isRestBlank_of_head hnewline)))
  · exact .inr (.append hne halike.newline)

/-- Spacing next to a comma may be taken away. -/
theorem drop (h : GapsMeet goes before gap₁ gap₂ (m :: marks)) (free : m.isFree = true)
    (hnext : BehindComma before gap₂ ∨ beforeComma marks = true) :
    GapsMeet goes before (gap₁ ++ [m.char]) gap₂ marks := by
  rcases h with hends | halike
  · exact .inl (isClosing_of_isFree free hends)
  · refine .inr ⟨?_, ?_⟩
    · have hm : m.char ≠ '\n' := by
        intro hchar
        rw [isFree, hchar] at free
        cases free
      rw [halike.newline, Bool.eq_iff_iff, List.contains_iff_mem, List.contains_iff_mem]
      simp [hm.symm]
    · rcases hnext with hbehind | hnext
      · exact .inr (.inl ⟨hbehind.comma, hbehind.apart⟩)
      · exact .inr (.inr ⟨by simp, hnext⟩)

/-- Before a lexeme that stays the line does not end. -/
theorem alike (h : GapsMeet goes before gap₁ gap₂ (m :: marks))
    (stays : isGoing goes (m :: marks) = false) (hlayout : isLayout m.char = false) :
    GapsAlike before gap₁ gap₂ (m :: marks) := by
  refine h.resolve_left ?_
  rw [isClosing, stays, Bool.or_false, chars_cons, isRestBlank_cons (isSpacing_of_not_isLayout hlayout),
    Bool.or_eq_true, Bool.and_eq_true, beq_iff_eq, beq_iff_eq]
  rintro (hchar | ⟨hchar, -⟩)
  · rw [hchar] at hlayout
    cases hlayout
  · rw [hchar] at hlayout
    cases hlayout

end GapsMeet

/-! ### Lexemes -/

/-- The lexeme is a semicolon at a picked offset. -/
def isPicked (picked : Nat → Bool) (lexeme : Lexeme) : Bool :=
  lexeme.isSymbol ";" && picked lexeme.start

/-- A lexeme that stays is not picked. -/
theorem isPicked_eq_false {picked : Nat → Bool} {kind : LexemeKind} {rest : List Mark}
    (body : List Char) (stays : isGoing goes (⟨c, line, kind.shields⟩ :: rest) = false)
    (hpicked : picked offset = goes (⟨c, line, kind.shields⟩ :: rest)) :
    isPicked picked ⟨kind, gap, offset, String.ofList (c :: body)⟩ = false := by
  rw [Bool.eq_false_iff]
  intro h
  rw [isPicked, Bool.and_eq_true, isSymbol_iff] at h
  obtain ⟨⟨rfl, htext⟩, hgoes⟩ := h
  obtain ⟨rfl, -⟩ := List.cons.inj (String.ofList_injective htext : c :: body = [';'])
  rw [isGoing, ← hpicked, hgoes] at stays
  cases stays

theorem toList_push (pre gap : String) (c : Char) :
    (pre ++ gap.push c).toList = (pre ++ gap).toList ++ [c] := by
  rw [String.toList_append, String.toList_push, String.toList_append, List.append_assoc]

theorem toList_comment (pre text : String) : (pre ++ text ++ "").toList = pre.toList ++ text.toList := by
  rw [String.append_empty, String.toList_append]

theorem alike_of_foundAgain {kind : LexemeKind} {body body' : List Char} {offset offset' : Nat}
    {gap gap' : String} (hsame : body' = body ∨ c = '\x60' ∧ kind = .token .identifier)
    (hnewline : gap'.toList.contains '\n' = gap.toList.contains '\n') :
    Lexeme.Alike ⟨kind, gap, offset, String.ofList (c :: body)⟩
      ⟨kind, gap', offset', String.ofList (c :: body')⟩ where
  kind := rfl
  isOnNewLine := hnewline
  text := by
    rcases hsame with rfl | ⟨rfl, rfl⟩
    · exact .inl rfl
    · exact .inr ⟨.inl rfl, by simp [beginsQuoted, isQuoteMark], by simp [beginsQuoted, isQuoteMark]⟩

variable {marks' : List Mark} {offset' : Nat} {gap' pre' : String} {placed' : List PlacedLexeme}
    {picked : Nat → Bool} {lexemes : List Lexeme}

/-! ### Texts -/

/-- Whatever the text is retouched to, the significant lexemes that it gives are the given ones without
the picked semicolons. -/
def ThinsInto (goes : List Mark → Bool) (picked : Nat → Bool) (gap : String) (line : Nat)
    (marks : List Mark) (lexemes : List Lexeme) : Prop :=
  ∀ ⦃behind : Bool⦄ ⦃marks' : List Mark⦄ ⦃offset' : Nat⦄ ⦃gap' : String⦄ ⦃placed' : List PlacedLexeme⦄
    ⦃before : List Lexeme⦄ ⦃pre pre' : String⦄, Retouched goes behind marks marks' →
    Shading offset' gap' line marks' placed' →
    (behind = true → BehindComma before (pre' ++ gap').toList) →
    GapsMeet goes before (pre ++ gap).toList (pre' ++ gap').toList marks →
    Thinned (isPicked picked) before (significant pre lexemes)
      (significant pre' (placed'.map Prod.snd))

/-- A blank stays and belongs to both gaps, or it is spacing next to a comma. -/
theorem ThinsInto.blank (ih : ThinsInto goes picked (gap.push c) (lineAfter line c) marks lexemes)
    (layout : isLayout c = true) :
    ThinsInto goes picked gap line (⟨c, line, false⟩ :: marks) lexemes := by
  intro behind marks' offset' gap' placed' before pre pre' hr h' hbehind hgaps
  have hdropped : ∀ {behind}, (⟨c, line, false⟩ : Mark).isFree = true →
      BehindComma before (pre' ++ gap').toList ∨ beforeComma marks = true →
      (behind = true → BehindComma before (pre' ++ gap').toList) →
      Retouched goes behind marks marks' →
      Thinned (isPicked picked) before (significant pre lexemes)
        (significant pre' (placed'.map Prod.snd)) := by
    intro behind free hnext hbehind hrest
    have hline : lineAfter line c = line := lineAfter_of_isFree free line
    rw [hline] at ih
    refine ih hrest h' hbehind ?_
    rw [toList_push]
    exact hgaps.drop free hnext
  cases hr with
  | keep stays hrest =>
      refine ih hrest (h'.of_blank layout) (fun h => by cases h) ?_
      rw [toList_push, toList_push]
      exact hgaps.push stays
  | respace comma _ =>
      obtain ⟨rfl, -⟩ := isComma_iff.1 comma
      cases layout
  | dropBehind free hrest => exact hdropped free (.inl (hbehind rfl)) hbehind hrest
  | dropBefore free next hrest => exact hdropped free (.inr next) hbehind hrest
  | remove going _ _ =>
      obtain ⟨rfl, -⟩ := isSemicolon_iff.1 (isSemicolon_of_isGoing going)
      cases layout

section Lexemes

variable {kind : LexemeKind} {body : List Char}

/-- A lexeme that stays is found again, and a comment belongs to the gap in both texts. -/
theorem ThinsInto.keep
    (ih : ThinsInto goes picked "" (line + (c :: body).count '\n') marks lexemes)
    (layout : isLayout c = false)
    (measured : measure offset c (body ++ chars marks) = .ok (kind, body.length))
    (hfree : (⟨c, line, kind.shields⟩ : Mark).isFree = false)
    (hpicked : picked offset = goes (⟨c, line, kind.shields⟩ ::
      (ofChars kind.shields (lineAfter line c) body ++ marks)))
    (stays : isGoing goes (⟨c, line, kind.shields⟩ ::
      (ofChars kind.shields (lineAfter line c) body ++ marks)) = false)
    (hr : Retouched goes false (ofChars kind.shields (lineAfter line c) body ++ marks) marks')
    (h' : Shading offset' gap' line (⟨c, line, kind.shields⟩ :: marks') placed')
    (hgaps : GapsMeet goes before (pre ++ gap).toList (pre' ++ gap').toList
      (⟨c, line, kind.shields⟩ :: (ofChars kind.shields (lineAfter line c) body ++ marks))) :
    Thinned (isPicked picked) before
      (significant pre (⟨kind, gap, offset, String.ofList (c :: body)⟩ :: lexemes))
      (significant pre' (placed'.map Prod.snd)) := by
  obtain ⟨body', rest, rfl, hrest, hsame, hcount, hagain⟩ := foundAgain measured hr h'.linesFrom.2
  obtain ⟨placed'', rfl, hlater⟩ := Shading.of_lexeme body' h' layout (hagain offset')
  have hnewlines : (c :: body').count '\n' = (c :: body).count '\n' := by
    rw [List.count_cons, List.count_cons, hcount]
  rw [hnewlines] at hlater
  have halike := hgaps.alike stays layout
  rw [List.map_cons]
  by_cases hkind : kind = .token .comment
  · obtain rfl := FoundAgain.body_eq (by rw [hkind]; rfl) hsame
    subst hkind
    rw [significant_comment rfl, significant_comment rfl]
    refine ih hrest hlater (fun h => by cases h) (.inr ?_)
    have hne : (String.ofList (c :: body')).toList ≠ [] := by simp
    rw [toList_comment, toList_comment]
    exact .append hne halike.newline
  · have hother : ∀ gap offset text, (⟨kind, gap, offset, text⟩ : Lexeme).isComment = false :=
      fun _ _ _ => beq_false_of_ne hkind
    rw [significant_other (hother _ _ _), significant_other (hother _ _ _)]
    refine .keep (isPicked_eq_false body stays hpicked) (alike_of_foundAgain hsame halike.newline)
      (halike.apartAlike hfree ?_) (ih hrest hlater (fun h => by cases h) (.refl _ _ _ _))
    intro comma
    obtain ⟨rfl, -⟩ := isComma_iff.1 comma
    obtain ⟨rfl, rfl⟩ := eq_nil_of_measured measure_comma measured
    rfl

/-- A comma stays, also where a space is put in behind it. -/
theorem ThinsInto.respace (ih : ThinsInto goes picked "" line marks lexemes)
    (hpicked : picked offset = goes (⟨',', line, false⟩ :: marks))
    (hr : Retouched goes true marks marks')
    (h' : Shading offset' gap' line (⟨',', line, false⟩ :: ⟨' ', line, false⟩ :: marks') placed')
    (hgaps : GapsMeet goes before (pre ++ gap).toList (pre' ++ gap').toList
      (⟨',', line, false⟩ :: marks)) :
    Thinned (isPicked picked) before (significant pre (⟨.punctuation, gap, offset, ","⟩ :: lexemes))
      (significant pre' (placed'.map Prod.snd)) := by
  obtain ⟨placed'', rfl, hlater⟩ :=
    Shading.of_lexeme [] h' rfl (measure_comma offset' _)
  have stays := isGoing_of_not_isSemicolon (m := ⟨',', line, false⟩) rfl goes marks
  have halike := hgaps.alike stays rfl
  have hspace : ("" ++ "".push ' ').toList = [' '] := by
    rw [toList_push]
    rfl
  rw [List.map_cons, significant_other rfl, significant_other rfl]
  refine .keep (isPicked_eq_false [] stays hpicked)
    (alike_of_foundAgain (.inl rfl) halike.newline) (halike.apartAlike rfl fun _ => rfl)
    (ih hr (hlater.of_blank rfl) (fun _ => ?_) (.inr ?_))
  · exact ⟨rfl, by rw [hspace]; rfl⟩
  · rw [hspace]
    exact ⟨rfl, .inr (.inl ⟨rfl, rfl⟩)⟩

/-- A semicolon that goes is picked, and the line ends behind it. -/
theorem ThinsInto.remove (ih : ThinsInto goes picked "" line marks lexemes)
    (hpicked : picked offset = goes (⟨';', line, false⟩ :: marks))
    (going : isGoing goes (⟨';', line, false⟩ :: marks) = true) (ends : isClosing goes marks = true)
    (hr : Retouched goes false marks marks') (h' : Shading offset' gap' line marks' placed') :
    Thinned (isPicked picked) before (significant pre (⟨.punctuation, gap, offset, ";"⟩ :: lexemes))
      (significant pre' (placed'.map Prod.snd)) := by
  have hgoes : isPicked picked ⟨.punctuation, pre ++ gap, offset, ";"⟩ = true := by
    rw [isGoing, Bool.and_eq_true] at going
    exact hpicked.trans going.2
  rw [significant_other rfl]
  exact .drop hgoes rfl (h'.head_isOnNewLine_of_isRestBlank (hr.isRestBlank_of_isClosing ends))
    (ih hr h' (fun h => by cases h) (.inl ends))

theorem ThinsInto.lexeme
    (ih : ThinsInto goes picked "" (line + (c :: body).count '\n') marks lexemes)
    (layout : isLayout c = false)
    (measured : measure offset c (body ++ chars marks) = .ok (kind, body.length))
    (hpicked : picked offset = goes (ofChars kind.shields line (c :: body) ++ marks)) :
    ThinsInto goes picked gap line (ofChars kind.shields line (c :: body) ++ marks)
      (⟨kind, gap, offset, String.ofList (c :: body)⟩ :: lexemes) := by
  intro behind marks' offset' gap' placed' before pre pre' hr h' hbehind hgaps
  rw [ofChars, List.cons_append] at hr hgaps hpicked
  have hfree : (⟨c, line, kind.shields⟩ : Mark).isFree = false := by
    rw [Bool.eq_false_iff]
    intro free
    cases layout.symm.trans (isLayout_of_isSpacing (isFree_iff.1 free).1)
  cases hr with
  | keep stays hrest => exact ih.keep layout measured hfree hpicked stays hrest h' hgaps
  | respace comma hrest =>
      obtain ⟨rfl, -⟩ := isComma_iff.1 comma
      obtain ⟨rfl, rfl⟩ := eq_nil_of_measured measure_comma measured
      exact ih.respace hpicked hrest h' hgaps
  | dropBehind free _ => cases hfree.symm.trans free
  | dropBefore free _ _ => cases hfree.symm.trans free
  | remove going ends hrest =>
      obtain ⟨rfl, -⟩ := isSemicolon_iff.1 (isSemicolon_of_isGoing going)
      obtain ⟨rfl, rfl⟩ := eq_nil_of_measured measure_semicolon measured
      exact ih.remove hpicked going ends hrest h'

end Lexemes

/-- A text from which picked semicolons go, and in which the spacing next to commas changes, has the
significant lexemes of the text before without these semicolons. -/
theorem thinsInto (h : Shading offset gap line marks placed) (hpicks : Picks goes picked offset marks) :
    ThinsInto goes picked gap line marks (placed.map Prod.snd) := by
  induction h with
  | done offset gap line =>
      intro behind marks' offset' gap' placed' before pre pre' hr h' _ _
      cases hr
      cases h'
      exact .nil
  | @blank offset line gap c marks placed layout later ih =>
      rw [← List.singleton_append] at hpicks
      have hlater := hpicks.of_append
      rw [chars_cons, chars_nil, byteLength_cons, byteLength_nil, Nat.add_zero] at hlater
      exact (ih hlater).blank layout
  | @lexeme offset line gap c body kind marks placed layout measured later ih =>
      have hlater := hpicks.of_append
      rw [chars_ofChars] at hlater
      exact (ih hlater).lexeme layout measured (hpicks [] _ rfl).symm

end Shading

end SourceLint
