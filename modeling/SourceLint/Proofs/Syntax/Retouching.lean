import SourceLint.Proofs.Syntax.Shading
import SourceLint.Rules.TrailingSemicolon

/-!
# Texts that are cut alike

Spacing next to a comma may change, and a semicolon at the end of its line may go, without any effect on
how the rest of the text is cut. Comments and string literals stay as they are and on their lines. The
text in backticks may change as well: what it stands for is one name, whatever it looks like.

## Implementation notes

`Retouched` consumes the old text mark by mark, so the relation follows the recursion of `Shading`. Its
Boolean says that a space has been put in behind a comma right before the place at hand, so that the
spacing there may be taken away. Which semicolons go is asked of the text from each of them on.
-/

namespace SourceLint

open Lexeme

namespace Mark

/-- Spacing that is not shielded. -/
def isFree (m : Mark) : Bool := isSpacing m.char && !m.shielded

/-- A comma that is not shielded. -/
def isComma (m : Mark) : Bool := m.char == ',' && !m.shielded

/-- A semicolon that is not shielded. -/
def isSemicolon (m : Mark) : Bool := m.char == ';' && !m.shielded

/-- Nothing but spacing stands before a comma. -/
def beforeComma : List Mark → Bool
  | [] => false
  | m :: marks => m.isComma || m.isFree && beforeComma marks

/-- No retouching takes the mark away or puts spacing behind it. -/
structure IsFixed (m : Mark) : Prop where
  free : m.isFree = false
  comma : m.isComma = false
  semicolon : m.isSemicolon = false

theorem isFree_iff {m : Mark} : m.isFree = true ↔ isSpacing m.char = true ∧ m.shielded = false := by
  rw [isFree, Bool.and_eq_true, Bool.not_eq_true']

theorem isComma_iff {m : Mark} : m.isComma = true ↔ m.char = ',' ∧ m.shielded = false := by
  rw [isComma, Bool.and_eq_true, beq_iff_eq, Bool.not_eq_true']

theorem isSemicolon_iff {m : Mark} : m.isSemicolon = true ↔ m.char = ';' ∧ m.shielded = false := by
  rw [isSemicolon, Bool.and_eq_true, beq_iff_eq, Bool.not_eq_true']

theorem isSeparator_of_isFree {m : Mark} (h : m.isFree = true) : isSeparator m.char = true :=
  isSeparator_of_isSpacing (isFree_iff.1 h).1

theorem isSeparator_of_isComma {m : Mark} (h : m.isComma = true) : isSeparator m.char = true := by
  rw [(isComma_iff.1 h).1]
  rfl

theorem isSeparator_of_isSemicolon {m : Mark} (h : m.isSemicolon = true) :
    isSeparator m.char = true := by
  rw [(isSemicolon_iff.1 h).1]
  rfl

theorem isFixed_of_shielded {m : Mark} (h : m.shielded = true) : m.IsFixed where
  free := by simp [isFree, h]
  comma := by simp [isComma, h]
  semicolon := by simp [isSemicolon, h]

theorem isFixed_of_visible {m : Mark} (h : isSeparator m.char = false) : m.IsFixed where
  free := by
    rw [Bool.eq_false_iff]
    intro hfree
    cases h.symm.trans (isSeparator_of_isFree hfree)
  comma := by
    rw [Bool.eq_false_iff]
    intro hcomma
    cases h.symm.trans (isSeparator_of_isComma hcomma)
  semicolon := by
    rw [Bool.eq_false_iff]
    intro hsemicolon
    cases h.symm.trans (isSeparator_of_isSemicolon hsemicolon)

/-- Spacing does not end a line. -/
theorem lineAfter_of_isFree {m : Mark} (h : m.isFree = true) (line : Nat) :
    lineAfter line m.char = line := by
  rw [lineAfter, if_neg]
  intro hchar
  rw [isFree, hchar] at h
  cases h

end Mark

open Mark

/-- In a text that begins at an offset, the places that satisfy `goes` are the picked offsets. -/
def Picks (goes : List Mark → Bool) (picked : Nat → Bool) (offset : Nat) (marks : List Mark) : Prop :=
  ∀ front back, marks = front ++ back → goes back = picked (offset + byteLength (chars front))

/-- In a piece of the text the picked offsets are the same. -/
theorem Picks.of_append {goes : List Mark → Bool} {picked : Nat → Bool} {offset : Nat}
    {piece marks : List Mark} (h : Picks goes picked offset (piece ++ marks)) :
    Picks goes picked (offset + byteLength (chars piece)) marks := by
  rintro front back rfl
  rw [h (piece ++ front) back (by simp), chars_append, byteLength_append, Nat.add_assoc]

/-! ### Ends of lines -/

namespace TrailingSemicolon

theorem isRestBlank_spacing {c : Char} (hc : isSpacing c = true) (cs : List Char) :
    isRestBlank (c :: cs) = isRestBlank cs := by
  rw [isRestBlank, isRestBlank, List.dropWhile_cons_of_pos hc]

theorem isRestBlank_cons {c : Char} (hc : isSpacing c = false) (cs : List Char) :
    isRestBlank (c :: cs) = (c == '\n' || c == '\r' && cs.head?.all (· == '\n')) := by
  rw [isRestBlank, List.dropWhile_cons_of_neg (by simp [hc])]
  by_cases hnewline : c = '\n'
  · subst hnewline
    rfl
  by_cases hreturn : c = '\r'
  · subst hreturn
    cases cs with
    | nil => rfl
    | cons d cs =>
        by_cases hd : d = '\n'
        · subst hd
          rfl
        · simp [hd]
  · simp [hnewline, hreturn]

/-- Whether a line ends shows before its end, or in the first character behind a carriage return. -/
theorem isRestBlank_append_congr {cs ds : List Char} (hblank : isRestBlank cs = isRestBlank ds)
    (hnewline : cs.head?.all (· == '\n') = ds.head?.all (· == '\n')) (front : List Char) :
    isRestBlank (front ++ cs) = isRestBlank (front ++ ds) := by
  induction front with
  | nil => exact hblank
  | cons c front ih =>
      rw [List.cons_append, List.cons_append]
      cases hc : isSpacing c with
      | true => rw [isRestBlank_spacing hc, isRestBlank_spacing hc, ih]
      | false =>
          rw [isRestBlank_cons hc, isRestBlank_cons hc]
          cases front with
          | nil => rw [List.nil_append, List.nil_append, hnewline]
          | cons d front => rfl

/-- No text is visible where a line ends. -/
theorem visible_of_isRestBlank {cs : List Char} (h : isRestBlank cs = true) :
    Lexeme.visible cs = [] := by
  cases cs with
  | nil => rfl
  | cons c cs =>
      apply Lexeme.visible_of_isSeparator
      cases hc : isSpacing c with
      | true => exact Lexeme.isSeparator_of_isSpacing hc
      | false =>
          rw [isRestBlank_cons hc, Bool.or_eq_true, Bool.and_eq_true, beq_iff_eq, beq_iff_eq] at h
          rcases h with rfl | ⟨rfl, -⟩
          · rfl
          · rfl

end TrailingSemicolon

open TrailingSemicolon (isRestBlank isRestBlank_spacing isRestBlank_cons visible_of_isRestBlank)

/-- The text begins with a semicolon that goes. -/
def isGoing (goes : List Mark → Bool) (marks : List Mark) : Bool :=
  marks.head?.any isSemicolon && goes marks

/-- The line ends, or one more semicolon that goes stands before its end. -/
def isClosing (goes : List Mark → Bool) (marks : List Mark) : Bool :=
  isRestBlank (chars marks) || isGoing goes marks

/-- In a text, spacing next to commas is taken away or put in, and the semicolons that go are taken
away. They go from the ends of lines only. -/
inductive Retouched (goes : List Mark → Bool) : Bool → List Mark → List Mark → Prop
  | nil {behind : Bool} : Retouched goes behind [] []
  | keep {behind : Bool} {marks marks' : List Mark} {m : Mark}
    (stays : isGoing goes (m :: marks) = false)
      (later : Retouched goes false marks marks') : Retouched goes behind (m :: marks) (m :: marks')
  | respace {behind : Bool} {marks marks' : List Mark} {m : Mark} (comma : m.isComma = true)
      (later : Retouched goes true marks marks') :
      Retouched goes behind (m :: marks) (m :: ⟨' ', m.line, false⟩ :: marks')
  | dropBehind {marks marks' : List Mark} {m : Mark} (free : m.isFree = true)
      (later : Retouched goes true marks marks') : Retouched goes true (m :: marks) marks'
  | dropBefore {behind : Bool} {marks marks' : List Mark} {m : Mark} (free : m.isFree = true)
      (next : beforeComma marks = true) (later : Retouched goes behind marks marks') :
      Retouched goes behind (m :: marks) marks'
  | remove {behind : Bool} {marks marks' : List Mark} {m : Mark}
    (going : isGoing goes (m :: marks) = true)
      (ends : isClosing goes marks = true) (later : Retouched goes false marks marks') :
      Retouched goes behind (m :: marks) marks'

theorem isSemicolon_of_isGoing {goes : List Mark → Bool} {m : Mark} {marks : List Mark}
    (h : isGoing goes (m :: marks) = true) : m.isSemicolon = true := by
  rw [isGoing, Bool.and_eq_true] at h
  exact h.1

theorem isGoing_of_not_isSemicolon {m : Mark} (hm : m.isSemicolon = false) (goes : List Mark → Bool)
    (marks : List Mark) : isGoing goes (m :: marks) = false := by
  rw [isGoing, List.head?_cons, Option.any_some, hm, Bool.false_and]

theorem isClosing_of_isFree {goes : List Mark → Bool} {m : Mark} {marks : List Mark}
    (hm : m.isFree = true) (h : isClosing goes (m :: marks) = true) : isClosing goes marks = true := by
  have hspacing := (isFree_iff.1 hm).1
  have hsemicolon : m.isSemicolon = false := by
    rw [Bool.eq_false_iff]
    intro hsemicolon
    rw [(isSemicolon_iff.1 hsemicolon).1] at hspacing
    cases hspacing
  rw [isClosing, isGoing_of_not_isSemicolon hsemicolon, Bool.or_false, chars_cons,
    isRestBlank_spacing hspacing] at h
  rw [isClosing, h, Bool.true_or]

/-- No text is visible behind a semicolon that goes. -/
theorem visible_of_isClosing {goes : List Mark → Bool} {marks : List Mark}
    (h : isClosing goes marks = true) : visible (chars marks) = [] := by
  rcases Bool.or_eq_true_iff.1 h with hblank | hgoing
  · exact visible_of_isRestBlank hblank
  · cases marks with
    | nil => rfl
    | cons m marks =>
        exact visible_of_isSeparator (isSeparator_of_isSemicolon (isSemicolon_of_isGoing hgoing)) _

namespace Retouched

variable {goes : List Mark → Bool} {behind : Bool} {marks marks' : List Mark}

/-- What may be done elsewhere may be done behind a comma. -/
theorem toBehind (h : Retouched goes behind marks marks') : Retouched goes true marks marks' := by
  induction h with
  | nil => exact .nil
  | keep stays later _ => exact .keep stays later
  | respace comma later _ => exact .respace comma later
  | dropBehind free later _ => exact .dropBehind free later
  | dropBefore free next _ ih => exact .dropBefore free next ih
  | remove going ends later _ => exact .remove going ends later

/-- Behind a space that has been put in, spacing may be taken away. -/
theorem dropAll {gap : List Mark} (hgap : ∀ m ∈ gap, m.isFree = true)
    (h : Retouched goes true marks marks') : Retouched goes true (gap ++ marks) marks' := by
  induction gap with
  | nil => exact h
  | cons m gap ih =>
      exact .dropBehind (hgap m List.mem_cons_self) (ih fun d hd => hgap d (List.mem_cons_of_mem _ hd))

/-- What is left of a text before a comma shows nothing but a separator. -/
theorem visible_of_beforeComma (h : Retouched goes behind marks marks')
    (hcomma : beforeComma marks = true) : visible (chars marks') = [] := by
  induction h with
  | nil => cases hcomma
  | @keep _ marks marks' m stays later _ =>
      rw [chars_cons]
      apply visible_of_isSeparator
      rw [beforeComma, Bool.or_eq_true, Bool.and_eq_true] at hcomma
      rcases hcomma with hm | ⟨hm, -⟩
      · exact isSeparator_of_isComma hm
      · exact isSeparator_of_isFree hm
  | respace comma _ _ => exact visible_of_isSeparator (isSeparator_of_isComma comma) _
  | @dropBehind marks marks' m free later ih =>
      apply ih
      rw [beforeComma, Bool.or_eq_true, Bool.and_eq_true] at hcomma
      rcases hcomma with hm | ⟨-, hnext⟩
      · rw [isFree, (isComma_iff.1 hm).1] at free
        cases free
      · exact hnext
  | dropBefore free next later ih => exact ih next
  | @remove _ marks marks' m going ends later ih =>
      have hsemicolon := (isSemicolon_iff.1 (isSemicolon_of_isGoing going)).1
      simp [beforeComma, isComma, isFree, hsemicolon, isSpacing] at hcomma

/-- Away from commas the text up to the next separator stays. -/
theorem visible_eq (h : Retouched goes behind marks marks') (hbehind : behind = false) :
    visible (chars marks') = visible (chars marks) := by
  induction h with
  | nil => rfl
  | @keep _ marks marks' m stays later ih =>
      rw [chars_cons, chars_cons, visible_cons, visible_cons, ih rfl]
  | respace comma _ _ =>
      have hcomma := isSeparator_of_isComma comma
      rw [chars_cons, chars_cons, visible_of_isSeparator hcomma]
      exact (visible_of_isSeparator hcomma _).symm
  | dropBehind _ _ _ => cases hbehind
  | dropBefore free next later _ =>
      rw [chars_cons, visible_of_isSeparator (isSeparator_of_isFree free)]
      exact later.visible_of_beforeComma next
  | remove going ends _ ih =>
      rw [chars_cons, visible_of_isSeparator (isSeparator_of_isSemicolon (isSemicolon_of_isGoing going)),
        ih rfl, visible_of_isClosing ends]

/-- A fixed mark stays, and nothing is put in behind it. -/
theorem exists_cons {m : Mark} (hm : m.IsFixed) (h : Retouched goes behind (m :: marks) marks') :
    ∃ rest, marks' = m :: rest ∧ Retouched goes false marks rest := by
  cases h with
  | keep _ later => exact ⟨_, rfl, later⟩
  | respace comma _ => cases hm.comma.symm.trans comma
  | dropBehind free _ => cases hm.free.symm.trans free
  | dropBefore free _ _ => cases hm.free.symm.trans free
  | remove going _ _ => cases hm.semicolon.symm.trans (isSemicolon_of_isGoing going)

theorem isFixed_newline {m : Mark} (hm : m.char = '\n') : m.IsFixed where
  free := by simp [isFree, hm, isSpacing]
  comma := by simp [isComma, hm]
  semicolon := by simp [isSemicolon, hm]

/-- The end of a line stays. -/
theorem endsLine (h : Retouched goes behind marks marks') (hends : EndsLine (chars marks)) :
    EndsLine (chars marks') := by
  cases marks with
  | nil =>
      cases h
      exact hends
  | cons m marks =>
      obtain ⟨rest, rfl, -⟩ := h.exists_cons (isFixed_newline (hends _ rfl))
      exact hends

/-- A fixed piece stays, and nothing is put in behind it. -/
theorem exists_append {piece : List Mark} (hpiece : ∀ m ∈ piece, m.IsFixed)
    (h : Retouched goes false (piece ++ marks) marks') :
    ∃ rest, marks' = piece ++ rest ∧ Retouched goes false marks rest := by
  induction piece generalizing marks' with
  | nil => exact ⟨marks', rfl, h⟩
  | cons m piece ih =>
      obtain ⟨later, rfl, hlater⟩ := h.exists_cons (hpiece m List.mem_cons_self)
      obtain ⟨rest, rfl, hrest⟩ := ih (fun d hd => hpiece d (List.mem_cons_of_mem _ hd)) hlater
      exact ⟨rest, rfl, hrest⟩

/-- A fixed mark stays, and before it nothing but spacing is put in. -/
theorem exists_split {front : List Mark} {m : Mark} (hm : m.IsFixed)
    (h : Retouched goes behind (front ++ m :: marks) marks') :
    ∃ front' rest, marks' = front' ++ m :: rest ∧ (∀ d ∈ front', d ∈ front ∨ d.isFree = true) ∧
      Retouched goes false marks rest := by
  induction front generalizing behind marks' with
  | nil =>
      obtain ⟨rest, rfl, hrest⟩ := h.exists_cons hm
      exact ⟨[], rest, rfl, by simp, hrest⟩
  | cons first front ih =>
      have hgrow : ∀ {behind marks'} (kept : List Mark), (∀ d ∈ kept, d = first ∨ d.isFree = true) →
          Retouched goes behind (front ++ m :: marks) marks' →
          ∃ front' rest, kept ++ marks' = front' ++ m :: rest ∧
            (∀ d ∈ front', d ∈ first :: front ∨ d.isFree = true) ∧ Retouched goes false marks rest := by
        intro behind marks' kept hkept hlater
        obtain ⟨front', rest, rfl, hfront, hrest⟩ := ih hlater
        refine ⟨kept ++ front', rest, by simp, ?_, hrest⟩
        intro d hd
        rcases List.mem_append.1 hd with hd | hd
        · exact (hkept d hd).imp_left fun heq => by simp [heq]
        · exact (hfront d hd).imp_left (List.mem_cons_of_mem _)
      cases h with
      | keep _ later => exact hgrow [first] (by simp) later
      | respace _ later =>
          refine hgrow [first, ⟨' ', first.line, false⟩] ?_ later
          intro d hd
          rcases List.mem_cons.1 hd with rfl | hd
          · exact .inl rfl
          · rw [List.mem_singleton.1 hd]
            exact .inr rfl
      | dropBehind _ later => exact hgrow [] (by simp) later
      | dropBefore _ _ later => exact hgrow [] (by simp) later
      | remove _ _ later => exact hgrow [] (by simp) later

/-- Where a line ends, it still does. -/
theorem isRestBlank_of_isClosing (h : Retouched goes behind marks marks')
    (hends : isClosing goes marks = true) : isRestBlank (chars marks') = true := by
  induction h with
  | nil => rfl
  | @keep _ marks marks' m stays later ih =>
      rw [isClosing, stays, Bool.or_false, chars_cons] at hends
      rw [chars_cons]
      cases hm : isSpacing m.char with
      | true =>
          rw [isRestBlank_spacing hm] at hends ⊢
          exact ih (by rw [isClosing, hends, Bool.true_or])
      | false =>
          rw [isRestBlank_cons hm, Bool.or_eq_true, Bool.and_eq_true] at hends ⊢
          refine hends.imp_right fun ⟨hreturn, hnewline⟩ => ⟨hreturn, ?_⟩
          have hline : EndsLine (chars marks) := by
            intro c hc
            rw [hc] at hnewline
            simpa using hnewline
          have hline' := later.endsLine hline
          rw [Option.all_eq_true]
          intro c hc
          rw [hline' c hc]
          rfl
  | @respace _ marks marks' m comma later ih =>
      have hm := (isComma_iff.1 comma).1
      have hsemicolon : m.isSemicolon = false := by simp [isSemicolon, hm]
      rw [isClosing, isGoing_of_not_isSemicolon hsemicolon, chars_cons, hm,
        isRestBlank_cons rfl] at hends
      cases hends
  | dropBehind free later ih => exact ih (isClosing_of_isFree free hends)
  | dropBefore free next later ih => exact ih (isClosing_of_isFree free hends)
  | remove going ends later ih => exact ih ends

end Retouched

/-! ### Lexemes -/

namespace Lexeme

theorem measure_comma (start : Nat) (cs : List Char) :
    measure start ',' cs = .ok (.punctuation, 0) := rfl

theorem measure_semicolon (start : Nat) (cs : List Char) :
    measure start ';' cs = .ok (.punctuation, 0) := rfl

theorem measure_backtick (start : Nat) (cs : List Char) :
    measure start '\x60' cs = measureBacktick start cs := rfl

end Lexeme

namespace Shading

variable {offset line : Nat} {gap : String} {marks marks' : List Mark} {placed : List PlacedLexeme}
variable {goes : List Mark → Bool}

section Lexemes

variable {c : Char} {body : List Char} {kind : LexemeKind}

/-- Behind its first character `c` a lexeme is found again in the text `marks'`: with the same text
unless it is a name in backticks, and with as many newlines in any case. The rest is a retouched
text. -/
def FoundAgain (goes : List Mark → Bool) (line : Nat) (c : Char) (kind : LexemeKind) (body : List Char)
    (marks marks' : List Mark) : Prop :=
  ∃ body' rest, marks' = ofChars kind.shields line body' ++ rest ∧ Retouched goes false marks rest ∧
    (body' = body ∨ c = '\x60' ∧ kind = .token .identifier) ∧ body'.count '\n' = body.count '\n' ∧
    ∀ offset, measure offset c (body' ++ chars rest) = .ok (kind, body'.length)

/-- A lexeme whose characters are fixed is found again. -/
theorem FoundAgain.of_fixed (hfixed : ∀ m ∈ ofChars kind.shields line body, m.IsFixed)
    (hr : Retouched goes false (ofChars kind.shields line body ++ marks) marks')
    (hagain : ∀ rest, Retouched goes false marks rest →
      ∀ offset, measure offset c (body ++ chars rest) = .ok (kind, body.length)) :
    FoundAgain goes line c kind body marks marks' := by
  obtain ⟨rest, rfl, hrest⟩ := hr.exists_append hfixed
  exact ⟨body, rest, rfl, hrest, .inl rfl, rfl, hagain rest hrest⟩

/-- Comments and string literals are found again. -/
theorem foundAgain_of_shields (hkind : kind.shields = true)
    (measured : measure offset c (body ++ chars marks) = .ok (kind, body.length))
    (hr : Retouched goes false (ofChars kind.shields line body ++ marks) marks') :
    FoundAgain goes line c kind body marks marks' := by
  refine .of_fixed ?_ hr ?_
  · intro m hm
    exact isFixed_of_shielded ((shielded_of_mem_ofChars hm).trans hkind)
  · intro rest hrest offset'
    obtain ⟨front, behind, hsplit, hlength, -, hagain⟩ := measure_enclosed measured hkind
    obtain ⟨rfl, rfl⟩ := List.append_inj hsplit hlength.symm
    exact hagain offset' (chars rest) (hrest.visible_eq rfl) hrest.endsLine

/-- Words, numbers, operators and signs are found again. -/
theorem foundAgain_of_visible (hkind : kind.shields = false) (hc : c ≠ '\x60')
    (measured : measure offset c (body ++ chars marks) = .ok (kind, body.length))
    (hr : Retouched goes false (ofChars kind.shields line body ++ marks) marks') :
    FoundAgain goes line c kind body marks marks' := by
  obtain ⟨hle, hagain⟩ := measure_settled measured hkind hc
  have hbody : ∀ d ∈ body, isSeparator d = false := by
    intro d hd
    apply isSeparator_of_mem_take hle
    rwa [List.take_left]
  refine .of_fixed ?_ hr ?_
  · intro m hm
    apply isFixed_of_visible
    apply hbody
    rw [← chars_ofChars kind.shields line body]
    exact List.mem_map_of_mem hm
  · intro rest hrest offset'
    exact hagain offset' _ (visible_append (hrest.visible_eq rfl) body)

/-- A name in backticks is found again, whatever is retouched in it. -/
theorem foundAgain_of_backtick
    (measured : measure offset '\x60' (body ++ chars marks) = .ok (kind, body.length))
    (hr : Retouched goes false (ofChars kind.shields line body ++ marks) marks')
    (hlines : LinesFrom line marks') : FoundAgain goes line '\x60' kind body marks marks' := by
  obtain ⟨name, after, hsplit, hname, rfl, hlength⟩ := exists_of_measureBacktick measured
  have hparts : body ++ chars marks = (name ++ ['\x60']) ++ after := by simpa using hsplit
  obtain ⟨rfl, rfl⟩ := List.append_inj hparts (by simp [hlength])
  have hshields : (LexemeKind.token .identifier).shields = false := rfl
  rw [hshields, ofChars_append, List.append_assoc] at hr
  obtain ⟨front, rest, rfl, hfront, hrest⟩ := hr.exists_split (isFixed_of_visible rfl)
  have hfree : ∀ m ∈ front, m.shielded = false ∧ m.char ≠ '\x60' := by
    intro m hm
    rcases hfront m hm with hm | hm
    · refine ⟨shielded_of_mem_ofChars hm, fun hchar => hname ?_⟩
      rw [← hchar, ← chars_ofChars false line name]
      exact List.mem_map_of_mem hm
    · refine ⟨(isFree_iff.1 hm).2, ?_⟩
      intro hchar
      rw [isFree, hchar] at hm
      cases hm
  have hcount : (chars front).count '\n' = name.count '\n' := by
    have hline := hlines.line_eq
    simp only at hline
    omega
  have hfresh : '\x60' ∉ chars front := by
    intro hmem
    obtain ⟨m, hm, hchar⟩ := List.mem_map.1 hmem
    exact (hfree m hm).2 hchar
  refine ⟨chars front ++ ['\x60'], rest, ?_, hrest, .inr ⟨rfl, rfl⟩, ?_, fun offset' => ?_⟩
  · rw [hshields, ofChars_append, hcount,
      ← (LinesFrom.append_iff.1 hlines).1.eq_ofChars fun m hm => (hfree m hm).1, List.append_assoc]
    rfl
  · rw [List.count_append, List.count_append, hcount]
  · rw [measure_backtick, List.append_assoc, List.length_append]
    exact measureBacktick_append hfresh offset' (chars rest)

/-- A lexeme is found again behind its first character. -/
theorem foundAgain (measured : measure offset c (body ++ chars marks) = .ok (kind, body.length))
    (hr : Retouched goes false (ofChars kind.shields line body ++ marks) marks')
    (hlines : LinesFrom line marks') : FoundAgain goes line c kind body marks marks' := by
  cases hkind : kind.shields with
  | true => exact foundAgain_of_shields hkind measured hr
  | false =>
      by_cases hbacktick : c = '\x60'
      · subst hbacktick
        exact foundAgain_of_backtick measured hr hlines
      · exact foundAgain_of_visible hkind hbacktick measured hr

/-- The text of a comment or a string literal that is found again is the same. -/
theorem FoundAgain.body_eq {body' : List Char} (hkind : kind.shields = true)
    (h : body' = body ∨ c = '\x60' ∧ kind = .token .identifier) : body' = body := by
  refine h.resolve_right ?_
  rintro ⟨-, rfl⟩
  cases hkind

end Lexemes

/-! ### Comments and string literals -/

/-- The comments and string literals among some lexemes, with their lines. -/
def enclosed (placed : List PlacedLexeme) : List (Nat × LexemeKind × String) :=
  (placed.filter fun x => x.2.kind.shields).map fun x => (x.1, x.2.kind, x.2.text)

theorem enclosed_cons (x : PlacedLexeme) (placed : List PlacedLexeme) :
    enclosed (x :: placed) =
      if x.2.kind.shields then (x.1, x.2.kind, x.2.text) :: enclosed placed else enclosed placed := by
  rw [enclosed, List.filter_cons]
  split
  · rfl
  · rfl

/-- Directives depend on comments only. -/
theorem remarks_congr {placed' : List PlacedLexeme} (h : enclosed placed' = enclosed placed) :
    remarks placed' = remarks placed := by
  have hremarks : ∀ placed, remarks placed = (enclosed placed).flatMap fun x =>
      if x.2.1 == .token .comment then
        (Directive.ofComment x.2.2).map fun found =>
          (x.1 + (offsetsAfterNewlines 0 x.2.2.toList).countP (· ≤ found.1), found.2)
      else [] := by
    intro placed
    induction placed with
    | nil => rfl
    | cons x placed ih =>
        rw [enclosed_cons, remarks, List.flatMap_cons, ← remarks, ih, Lexeme.isComment]
        by_cases hcomment : x.2.kind = .token .comment
        · simp [hcomment, LexemeKind.shields]
        · cases hkind : x.2.kind.shields with
          | true => simp [hcomment]
          | false => simp [hcomment]
  rw [hremarks, hremarks, h]

/-- The text with its marks is cut into lexemes wherever it begins, and its comments and string literals
are the given ones. -/
def CutInto (line : Nat) (marks : List Mark) (pieces : List (Nat × LexemeKind × String)) : Prop :=
  ∀ offset gap, ∃ placed, Shading offset gap line marks placed ∧ enclosed placed = pieces

/-- Spacing before a text does not matter. -/
theorem CutInto.blank {pieces : List (Nat × LexemeKind × String)} {m : Mark}
    (h : CutInto line marks pieces) (hm : m.isFree = true) (hline : m.line = line) :
    CutInto line (m :: marks) pieces := by
  intro offset gap
  obtain ⟨placed, hshading, hpieces⟩ := h (offset + m.char.utf8Size) (gap.push m.char)
  obtain ⟨char, mline, shielded⟩ := m
  obtain rfl : mline = line := hline
  obtain rfl : shielded = false := (isFree_iff.1 hm).2
  refine ⟨placed, .blank (isLayout_of_isSpacing (isFree_iff.1 hm).1) ?_, hpieces⟩
  rwa [lineAfter_of_isFree hm]

/-- A lexeme of one character is the whole of it. -/
theorem eq_nil_of_measured {body : List Char} {kind : LexemeKind} {c : Char}
    (hc : ∀ start cs, measure start c cs = .ok (.punctuation, 0))
    (measured : measure offset c (body ++ chars marks) = .ok (kind, body.length)) :
    kind = .punctuation ∧ body = [] := by
  rw [hc] at measured
  obtain ⟨rfl, hlength⟩ := Prod.mk.inj (Except.ok.inj measured)
  exact ⟨rfl, List.eq_nil_of_length_eq_zero hlength.symm⟩

/-- A retouched text is cut into lexemes like the text before, wherever it begins. -/
theorem cutInto_of_retouched {behind : Bool} (h : Shading offset gap line marks placed)
    (hr : Retouched goes behind marks marks') (hlines : LinesFrom line marks') :
    CutInto line marks' (enclosed placed) := by
  induction h generalizing behind marks' with
  | done offset gap line =>
      cases hr
      exact fun offset gap => ⟨[], .done _ _ _, rfl⟩
  | @blank offset line gap c marks placed layout later ih =>
      have hdropped : ∀ {behind marks'}, (⟨c, line, false⟩ : Mark).isFree = true →
          Retouched goes behind marks marks' → LinesFrom line marks' →
          CutInto line marks' (enclosed placed) := by
        intro behind marks' free hrest hlines
        have hline := lineAfter_of_isFree free line
        simp only at hline
        rw [hline] at ih
        exact ih hrest hlines
      cases hr with
      | keep _ hrest =>
          intro offset' gap'
          obtain ⟨placed', hshading, hpieces⟩ :=
            ih hrest hlines.2 (offset' + c.utf8Size) (gap'.push c)
          exact ⟨placed', .blank layout hshading, hpieces⟩
      | respace comma _ =>
          obtain ⟨rfl, -⟩ := isComma_iff.1 comma
          cases layout
      | dropBehind free hrest => exact hdropped free hrest hlines
      | dropBefore free _ hrest => exact hdropped free hrest hlines
      | remove going _ _ =>
          obtain ⟨rfl, -⟩ := isSemicolon_iff.1 (isSemicolon_of_isGoing going)
          cases layout
  | @lexeme offset line gap c body kind marks placed layout measured later ih =>
      rw [ofChars, List.cons_append] at hr
      have hhard : (⟨c, line, kind.shields⟩ : Mark).isFree = false := by
        rw [Bool.eq_false_iff]
        intro free
        cases layout.symm.trans (isLayout_of_isSpacing (isFree_iff.1 free).1)
      cases hr with
      | @keep _ _ marks' _ _ hrest =>
          intro offset' gap'
          obtain ⟨body', rest, rfl, hrest', hsame, hcount, hagain⟩ :=
            foundAgain measured hrest hlines.2
          have hlines' := (LinesFrom.append_iff.1 hlines.2).2
          rw [chars_ofChars, hcount, lineAfter_add_count] at hlines'
          obtain ⟨placed', hshading, hpieces⟩ :=
            ih hrest' hlines' (offset' + byteLength (c :: body')) ""
          have hnewlines : (c :: body).count '\n' = (c :: body').count '\n' := by
            rw [List.count_cons, List.count_cons, hcount]
          rw [hnewlines] at hshading
          refine ⟨_, .lexeme layout (hagain offset') hshading, ?_⟩
          rw [enclosed_cons, enclosed_cons, hpieces]
          cases hkind : kind.shields with
          | true => rw [FoundAgain.body_eq hkind hsame]
          | false => rfl
      | @respace _ _ rest _ comma hrest =>
          obtain ⟨rfl, -⟩ := isComma_iff.1 comma
          obtain ⟨rfl, rfl⟩ := eq_nil_of_measured measure_comma measured
          have hspace : (⟨' ', line, false⟩ : Mark).isFree = true := rfl
          have hbehind := (ih hrest hlines.2.2).blank hspace rfl
          intro offset' gap'
          obtain ⟨placed', hshading, hpieces⟩ := hbehind (offset' + byteLength [',']) ""
          exact ⟨_, .lexeme layout (measure_comma offset' _) hshading, hpieces⟩
      | dropBehind free _ => cases hhard.symm.trans free
      | dropBefore free _ _ => cases hhard.symm.trans free
      | remove going _ hrest =>
          obtain ⟨rfl, -⟩ := isSemicolon_iff.1 (isSemicolon_of_isGoing going)
          obtain ⟨rfl, rfl⟩ := eq_nil_of_measured measure_semicolon measured
          exact ih hrest hlines

end Shading

end SourceLint
