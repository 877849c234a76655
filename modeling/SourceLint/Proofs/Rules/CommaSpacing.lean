import SourceLint.Proofs.Correction.Independence
import SourceLint.Proofs.Syntax.Shading
import SourceLint.Rules.CommaSpacing

/-!
# What the edits of commas amount to

The edits of some commas change nothing but the spacing next to these commas. They lie apart from each
other: spacing between two commas is only touched by the edit of the first one. When they are made, none
of these commas needs an edit any more.

## Implementation notes

Which commas get an edit is a test on marks, so that one development covers commas in comments and
commas whose line has a directive. `Respaced` goes through a text from one comma to the next and takes
the spacing behind a comma along with it; whatever stands before the rest of the text matters only
through its last character that is no spacing.
-/

namespace SourceLint.CommaSpacing

open Mark

/-- The marks are of spaces and tabs. -/
def IsGap (gap : List Mark) : Prop := ∀ m ∈ gap, isSpacing m.char = true

/-- Behind this character, or at the beginning of the text, spacing before a comma stays. -/
def keepsSpacing : Option Char → Bool
  | none | some '\n' | some ',' => true
  | some _ => false

/-- Before this character, or at the end of the text, spacing behind a comma stays. -/
def endsLine : Option Char → Bool
  | none | some '\n' | some '\r' => true
  | some _ => false

/-- The spacing that is left before a comma with an edit. -/
def gapBefore (x : Option Char) (gap : List Mark) : List Mark := if keepsSpacing x then gap else []

/-- The spacing that is left behind a comma with an edit, with the text `rest` behind that. -/
def gapAfter (comma : Mark) (gap rest : List Mark) : List Mark :=
  if endsLine (chars rest).head? then gap else [⟨' ', comma.line, false⟩]

/-- The last character before some text that is no spacing is `x`, and unless spacing before a comma
stays there, no spacing follows it. -/
structure Behind (x : Option Char) (before : List Char) : Prop where
  head : (before.dropWhile isSpacing).head? = x
  hard : keepsSpacing x = false → ∀ c ∈ before.head?, isSpacing c = false

theorem IsGap.chars_spacing {gap : List Mark} (h : IsGap gap) :
    ∀ c ∈ chars gap, isSpacing c = true := by
  intro c hc
  obtain ⟨m, hm, rfl⟩ := List.mem_map.1 hc
  exact h m hm

theorem IsGap.reverse_spacing {gap : List Mark} (h : IsGap gap) :
    ∀ c ∈ (chars gap).reverse, isSpacing c = true := by
  intro c hc
  exact h.chars_spacing c (List.mem_reverse.1 hc)

/-- Spaces and tabs take one byte each. -/
theorem byteLength_of_spacing {cs : List Char} (h : ∀ c ∈ cs, isSpacing c = true) :
    byteLength cs = cs.length := by
  induction cs with
  | nil => rfl
  | cons c cs ih =>
      have hc : c.utf8Size = 1 := by
        rcases Lexeme.isSpacing_iff.1 (h c List.mem_cons_self) with rfl | rfl
        · rfl
        · rfl
      rw [byteLength_cons, hc, ih fun d hd => h d (List.mem_cons_of_mem _ hd), List.length_cons,
        Nat.add_comm]

variable {x : Option Char} {before : List Char} {offset : Nat} {gap after rest : List Mark}

namespace Site

theorem excessBefore_def (site : Site) :
    site.excessBefore = if keepsSpacing (site.before.dropWhile isSpacing).head? then 0
      else (site.before.takeWhile isSpacing).length := by
  rw [excessBefore]
  cases site.before.dropWhile isSpacing with
  | nil => rfl
  | cons c cs =>
      rw [List.head?_cons]
      by_cases hnewline : c = '\n'
      · subst hnewline
        rfl
      by_cases hcomma : c = ','
      · subst hcomma
        rfl
      · have hkeeps : keepsSpacing (some c) = false := by
          unfold keepsSpacing
          split <;> simp_all
        rw [hkeeps]
        split <;> simp_all

theorem endsLine_def (site : Site) :
    site.endsLine = CommaSpacing.endsLine (site.after.dropWhile isSpacing).head? := by
  rw [endsLine]
  cases site.after.dropWhile isSpacing with
  | nil => rfl
  | cons c cs =>
      rw [List.head?_cons]
      by_cases hnewline : c = '\n'
      · subst hnewline
        rfl
      by_cases hreturn : c = '\r'
      · subst hreturn
        rfl
      · have hends : CommaSpacing.endsLine (some c) = false := by
          unfold CommaSpacing.endsLine
          split <;> simp_all
        rw [hends]
        split <;> simp_all

/-- The edit of a comma with spacing on both sides, as it shows in the marks. -/
theorem correction?_eq (hbehind : Behind x before) (hgap : IsGap gap) (hafter : IsGap after)
    (hrest : ∀ c ∈ (chars rest).head?, isSpacing c = false) :
    correction? ⟨offset + byteLength (chars gap), (chars gap).reverse ++ before,
        chars after ++ chars rest⟩ =
      if CommaSpacing.endsLine (chars rest).head? then
        if keepsSpacing x ∨ gap = [] then none
        else some ⟨⟨offset, byteLength (chars gap) + 1⟩, ","⟩
      else if (keepsSpacing x ∨ gap = []) ∧ chars after = [' '] then none
      else if keepsSpacing x then
        some ⟨⟨offset + byteLength (chars gap), 1 + byteLength (chars after)⟩, ", "⟩
      else some ⟨⟨offset, byteLength (chars gap) + 1 + byteLength (chars after)⟩, ", "⟩ := by
  have hlength := byteLength_of_spacing hgap.chars_spacing
  have hlengthAfter := byteLength_of_spacing hafter.chars_spacing
  have hdrop : ((chars gap).reverse ++ before).dropWhile isSpacing = before.dropWhile isSpacing :=
    List.dropWhile_append_of_pos hgap.reverse_spacing
  have hexcess : excessBefore ⟨offset + byteLength (chars gap), (chars gap).reverse ++ before,
      chars after ++ chars rest⟩ = if keepsSpacing x then 0 else byteLength (chars gap) := by
    rw [excessBefore_def, hdrop, hbehind.head]
    split
    · rfl
    · rename_i hkeeps
      rw [takeWhile_span hgap.reverse_spacing (hbehind.hard (by simpa using hkeeps)),
        List.length_reverse, hlength]
  have htake := takeWhile_span hafter.chars_spacing hrest
  have hdropAfter := dropWhile_span hafter.chars_spacing hrest
  have hempty : byteLength (chars gap) = 0 ↔ gap = [] := by
    rw [byteLength_eq_zero_iff, chars, List.map_eq_nil_iff]
  rw [correction?]
  simp only [hexcess, endsLine_def, htake, hdropAfter]
  cases CommaSpacing.endsLine (chars rest).head? with
  | true =>
      cases keepsSpacing x with
      | true => simp
      | false =>
          by_cases hnil : gap = []
          · simp [hnil]
          · simp [hnil, hempty, Span.ofBounds]
            omega
  | false =>
      cases keepsSpacing x with
      | true =>
          by_cases hafter : chars after = [' ']
          · simp [hafter]
          · simp [hafter, Span.ofBounds, ← hlengthAfter]
            omega
      | false =>
          by_cases hnil : gap = []
          · by_cases hafter : chars after = [' ']
            · simp [hnil, hafter]
            · simp [hnil, hafter, Span.ofBounds, ← hlengthAfter]
              omega
          · simp [hnil, hempty, Span.ofBounds, ← hlengthAfter]
            omega

/-- Either the comma has the spacing that it is left with, or its edit replaces a piece of spacing
around it. -/
theorem correction?_cases (hbehind : Behind x before) (hgap : IsGap gap) (hafter : IsGap after)
    (hrest : ∀ c ∈ (chars rest).head?, isSpacing c = false) (comma : Mark) :
    (correction? ⟨offset + byteLength (chars gap), (chars gap).reverse ++ before,
        chars after ++ chars rest⟩ = none ∧
      chars (gapBefore x gap) = chars gap ∧ chars (gapAfter comma after rest) = chars after) ∨
    ∃ kept old back replacement,
      correction? ⟨offset + byteLength (chars gap), (chars gap).reverse ++ before,
        chars after ++ chars rest⟩ =
          some ⟨⟨offset + byteLength kept, byteLength old⟩, replacement⟩ ∧
      chars gap ++ ',' :: chars after = kept ++ old ++ back ∧
      chars (gapBefore x gap) ++ ',' :: chars (gapAfter comma after rest) =
        kept ++ replacement.toList ++ back ∧
      ',' ∈ old ∧ (∀ c ∈ old, isSpacing c = true ∨ c = ',') ∧ ';' ∉ replacement.toList := by
  rw [correction?_eq hbehind hgap hafter hrest, gapBefore, gapAfter]
  have hspacing := hgap.chars_spacing
  have hspacingAfter := hafter.chars_spacing
  cases CommaSpacing.endsLine (chars rest).head? with
  | true =>
      simp only [if_true]
      split
      · rename_i hkeeps
        refine .inl ⟨rfl, ?_, trivial⟩
        rcases hkeeps with hkeeps | rfl
        · rw [if_pos hkeeps]
        · rw [ite_self]
      · rename_i hkeeps
        rw [not_or] at hkeeps
        refine .inr ⟨[], chars gap ++ [','], chars after, ",", ?_, by simp, ?_, by simp, ?_, by decide⟩
        · simp
          rfl
        · rw [if_neg hkeeps.1]
          rfl
        · intro c hc
          rcases List.mem_append.1 hc with hc | hc
          · exact .inl (hspacing c hc)
          · exact .inr (List.mem_singleton.1 hc)
  | false =>
      simp only [Bool.false_eq_true, if_false]
      split
      · rename_i hsettled
        obtain ⟨hkeeps, hspace⟩ := hsettled
        refine .inl ⟨rfl, ?_, hspace.symm⟩
        rcases hkeeps with hkeeps | rfl
        · rw [if_pos hkeeps]
        · rw [ite_self]
      · split
        · rename_i hkeeps
          refine .inr ⟨chars gap, ',' :: chars after, [], ", ", rfl, by simp, ?_, by simp, ?_, by decide⟩
          · simp
          · intro c hc
            rcases List.mem_cons.1 hc with rfl | hc
            · exact .inr rfl
            · exact .inl (hspacingAfter c hc)
        · rename_i hkeeps
          refine .inr ⟨[], chars gap ++ ',' :: chars after, [], ", ", ?_, by simp, ?_, by simp, ?_,
            by decide⟩
          · simp [Nat.add_assoc]
            rfl
          · rfl
          · intro c hc
            rcases List.mem_append.1 hc with hc | hc
            · exact .inl (hspacing c hc)
            rcases List.mem_cons.1 hc with rfl | hc
            · exact .inr rfl
            · exact .inl (hspacingAfter c hc)

end Site

/-! ### Respacing -/

/-- The comma may get an edit: it is no part of a comment or a string literal, and the rule is on for
its line. -/
def isLive (off : Nat → Bool) (m : Mark) : Bool := m.char == ',' && !m.shielded && !off m.line

/-- The edits of the commas that may get one, in a text that begins at an offset behind other text,
last character first. -/
def edits (off : Nat → Bool) (offset : Nat) (before : List Char) : List Mark → List Correction
  | [] => []
  | m :: marks =>
    let later := edits off (offset + m.char.utf8Size) (m.char :: before) marks
    if isLive off m then (Site.correction? ⟨offset, before, chars marks⟩).toList ++ later else later

/-- The spacing around each comma that may get an edit is set right in a text that stands behind
`x`. -/
inductive Respaced (off : Nat → Bool) : Option Char → List Mark → List Mark → Prop
  | tail {x : Option Char} {gap : List Mark} (hgap : IsGap gap) : Respaced off x gap gap
  | plain {x : Option Char} {gap marks marks' : List Mark} {m : Mark} (hgap : IsGap gap)
      (hard : isSpacing m.char = false) (dead : isLive off m = false)
      (later : Respaced off (some m.char) marks marks') :
      Respaced off x (gap ++ m :: marks) (gap ++ m :: marks')
  | comma {x : Option Char} {gap after marks marks' : List Mark} {m : Mark} (hgap : IsGap gap)
      (live : isLive off m = true) (hafter : IsGap after)
      (hard : ∀ c ∈ (chars marks).head?, isSpacing c = false)
      (later : Respaced off (some ',') marks marks') :
      Respaced off x (gap ++ m :: (after ++ marks))
        (gapBefore x gap ++ m :: (gapAfter m after marks ++ marks'))

theorem isGap_gapBefore (hgap : IsGap gap) (x : Option Char) : IsGap (gapBefore x gap) := by
  rw [gapBefore]
  split
  · exact hgap
  · simp [IsGap]

theorem isGap_gapAfter (hgap : IsGap gap) (comma : Mark) (rest : List Mark) :
    IsGap (gapAfter comma gap rest) := by
  rw [gapAfter]
  split
  · exact hgap
  · simp [IsGap, isSpacing]

theorem char_of_isLive {off : Nat → Bool} {m : Mark} (h : isLive off m = true) : m.char = ',' := by
  simp only [isLive, Bool.and_eq_true, beq_iff_eq] at h
  exact h.1.1

theorem Behind.cons {c : Char} (hc : isSpacing c = false) (before : List Char) :
    Behind (some c) (c :: before) where
  head := by simp [hc]
  hard := by simpa using fun _ => hc

theorem Behind.comma (hgap : IsGap gap) (before : List Char) :
    Behind (some ',') ((chars gap).reverse ++ ',' :: before) where
  head := by
    rw [dropWhile_span hgap.reverse_spacing (by simp [isSpacing])]
    rfl
  hard := fun h => by cases h

/-- A piece without a comma that may get an edit gets none. -/
theorem edits_dead {off : Nat → Bool} {piece : List Mark} (hdead : ∀ m ∈ piece, isLive off m = false)
    (offset : Nat) (before : List Char) (marks : List Mark) :
    edits off offset before (piece ++ marks) =
      edits off (offset + byteLength (chars piece)) ((chars piece).reverse ++ before) marks := by
  induction piece generalizing offset before with
  | nil => rfl
  | cons m piece ih =>
      rw [List.cons_append, edits, hdead m List.mem_cons_self, if_neg (by decide),
        ih fun d hd => hdead d (List.mem_cons_of_mem _ hd)]
      simp [Nat.add_assoc]

theorem edits_gap (off : Nat → Bool) (hgap : IsGap gap) (offset : Nat) (before : List Char)
    (marks : List Mark) :
    edits off offset before (gap ++ marks) =
      edits off (offset + byteLength (chars gap)) ((chars gap).reverse ++ before) marks := by
  apply edits_dead
  intro m hm
  rw [Bool.eq_false_iff]
  intro hlive
  have hspacing := hgap m hm
  rw [char_of_isLive hlive] at hspacing
  cases hspacing

/-- The edits of a text up to the spacing behind a comma that may get one are the edit of this comma. -/
theorem edits_comma {off : Nat → Bool} {m : Mark} (hgap : IsGap gap) (live : isLive off m = true)
    (hafter : IsGap after) {offset : Nat} {before : List Char} {marks : List Mark} :
    edits off offset before (gap ++ m :: (after ++ marks)) =
      (Site.correction? ⟨offset + byteLength (chars gap), (chars gap).reverse ++ before,
        chars (after ++ marks)⟩).toList ++
      edits off (offset + byteLength (chars gap) + 1 + byteLength (chars after))
        ((chars after).reverse ++ ',' :: ((chars gap).reverse ++ before)) marks := by
  have hsize : Char.utf8Size ',' = 1 := rfl
  rw [edits_gap off hgap, edits, live, if_pos rfl, edits_gap off hafter, char_of_isLive live, hsize]

/-- The edit of a comma sets its spacing right, and the later edits splice the rest. -/
theorem spliced_comma {m : Mark} {marks marks' : List Mark} {later : List Correction}
    (hbehind : Behind x before) (hgap : IsGap gap) (hcomma : m.char = ',') (hafter : IsGap after)
    (hard : ∀ c ∈ (chars marks).head?, isSpacing c = false)
    (hlater : Correction.Spliced (offset + byteLength (chars gap) + 1 + byteLength (chars after)) later
      (chars marks) (chars marks')) :
    Correction.Spliced offset
      ((Site.correction? ⟨offset + byteLength (chars gap), (chars gap).reverse ++ before,
        chars (after ++ marks)⟩).toList ++ later)
      (chars (gap ++ m :: (after ++ marks)))
      (chars (gapBefore x gap ++ m :: (gapAfter m after marks ++ marks'))) := by
  simp only [chars_append, chars_cons, hcomma]
  rcases Site.correction?_cases hbehind hgap hafter hard m with
    ⟨hnone, hbefore, hbehindGap⟩ | ⟨kept, old, back, replacement, hsome, hold, hnew, -, -, -⟩
  · rw [hnone, hbefore, hbehindGap]
    have hkept : Correction.Spliced
        (offset + byteLength (chars gap) + byteLength [','] + byteLength (chars after))
        later (chars marks) (chars marks') := hlater
    exact hkept.keep.keep.keep
  · have hlength := congrArg byteLength hold
    have hsize : Char.utf8Size ',' = 1 := rfl
    simp only [byteLength_append, byteLength_cons, hsize] at hlength
    have hstop : offset + byteLength kept + byteLength old + byteLength back =
        offset + byteLength (chars gap) + 1 + byteLength (chars after) := by
      omega
    have hbefore : kept ++ old ++ (back ++ chars marks) =
        chars gap ++ ',' :: (chars after ++ chars marks) := by
      rw [← List.append_assoc, ← hold]
      simp
    have hafter : kept ++ replacement.toList ++ (back ++ chars marks') =
        chars (gapBefore x gap) ++ ',' :: (chars (gapAfter m after marks) ++ chars marks') := by
      rw [← List.append_assoc, ← hnew]
      simp
    rw [hsome, ← hbefore, ← hafter]
    rw [← hstop] at hlater
    exact .next kept old replacement hlater.keep

namespace Respaced

variable {off : Nat → Bool} {marks marks' : List Mark}

/-- Every text can be respaced. -/
theorem exists_respaced (off : Nat → Bool) (x : Option Char) (marks : List Mark) :
    ∃ marks', Respaced off x marks marks' := by
  induction hlength : marks.length using Nat.strongRecOn generalizing x marks with
  | ind length ih =>
      obtain ⟨gap, rest, rfl, hgap, hrest⟩ := exists_span (fun m : Mark => isSpacing m.char) marks
      cases rest with
      | nil => exact ⟨gap ++ [], by simpa using .tail hgap⟩
      | cons m rest =>
          have hard := hrest m rfl
          cases hlive : isLive off m with
          | false =>
              obtain ⟨marks', later⟩ := ih rest.length (by simp at hlength; omega) (some m.char) rest rfl
              exact ⟨_, .plain hgap hard hlive later⟩
          | true =>
              obtain ⟨after, marks, rfl, hafter, hmarks⟩ :=
                exists_span (fun m : Mark => isSpacing m.char) rest
              obtain ⟨marks', later⟩ := ih marks.length (by simp at hlength; omega) (some ',') marks rfl
              refine ⟨_, .comma hgap hlive hafter ?_ later⟩
              intro c hc
              rw [chars, List.head?_map] at hc
              obtain ⟨d, hd, rfl⟩ := Option.map_eq_some_iff.1 hc
              exact hmarks d hd

/-- The first character stays if it is no spacing. -/
theorem head?_eq (h : Respaced off x marks marks')
    (hard : ∀ c ∈ (chars marks).head?, isSpacing c = false) : marks'.head? = marks.head? := by
  have hnil : ∀ gap more : List Mark, IsGap gap →
      (∀ c ∈ (chars (gap ++ more)).head?, isSpacing c = false) → gap = [] := by
    intro gap more hgap hmore
    cases gap with
    | nil => rfl
    | cons m gap =>
        have hspacing := hgap m List.mem_cons_self
        rw [hmore m.char rfl] at hspacing
        cases hspacing
  cases h with
  | tail => rfl
  | plain hgap _ _ _ =>
      obtain rfl := hnil _ _ hgap hard
      rfl
  | comma hgap _ _ _ _ =>
      obtain rfl := hnil _ _ hgap hard
      rw [gapBefore, ite_self]
      rfl

/-- The edits of the commas respace the text. -/
theorem spliced (h : Respaced off x marks marks') {before : List Char} (hbehind : Behind x before)
    (offset : Nat) :
    Correction.Spliced offset (edits off offset before marks) (chars marks) (chars marks') := by
  induction h generalizing before offset with
  | @tail x gap hgap =>
      rw [← List.append_nil gap, edits_gap off hgap]
      exact .rest _ _
  | @plain x gap marks marks' m hgap hard dead later ih =>
      rw [edits_gap off hgap, edits, dead, if_neg (by decide), chars_append, chars_append]
      have hrest := ih (.cons hard ((chars gap).reverse ++ before))
        (offset + byteLength (chars gap) + m.char.utf8Size)
      have hkept : Correction.Spliced (offset + byteLength (chars gap) + byteLength [m.char])
          (edits off (offset + byteLength (chars gap) + m.char.utf8Size)
            (m.char :: ((chars gap).reverse ++ before)) marks) (chars marks) (chars marks') := hrest
      exact hkept.keep.keep
  | @comma x gap after marks marks' m hgap live hafter hard later ih =>
      rw [edits_comma hgap live hafter]
      exact spliced_comma hbehind hgap (char_of_isLive live) hafter hard
        (ih (.comma hafter ((chars gap).reverse ++ before)) _)

/-- In a text that has been respaced no comma needs an edit. -/
theorem edits_eq_nil (h : Respaced off x marks marks') {before : List Char}
    (hbehind : Behind x before) (offset : Nat) : edits off offset before marks' = [] := by
  induction h generalizing before offset with
  | @tail x gap hgap =>
      rw [← List.append_nil gap, edits_gap off hgap]
      rfl
  | @plain x gap marks marks' m hgap hard dead later ih =>
      rw [edits_gap off hgap, edits, dead, if_neg (by decide), ih (.cons hard _)]
  | @comma x gap after marks marks' m hgap live hafter hard later ih =>
      have hhead : (chars marks').head? = (chars marks).head? := by
        rw [chars, chars, List.head?_map, List.head?_map, later.head?_eq hard]
      have hgapBefore := isGap_gapBefore hgap x
      have hgapAfter := isGap_gapAfter hafter m marks
      rw [edits_gap off hgapBefore, edits, live, if_pos rfl, edits_gap off hgapAfter, chars_append,
        Site.correction?_eq hbehind hgapBefore hgapAfter (by rwa [hhead]), hhead]
      have hkeeps : keepsSpacing x = true ∨ gapBefore x gap = [] := by
        rw [gapBefore]
        split
        · rename_i hkeeps
          exact .inl hkeeps
        · exact .inr rfl
      have hrest : edits off (offset + byteLength (chars (gapBefore x gap)) + m.char.utf8Size +
          byteLength (chars (gapAfter m after marks)))
          ((chars (gapAfter m after marks)).reverse ++
            m.char :: ((chars (gapBefore x gap)).reverse ++ before)) marks' = [] := by
        rw [char_of_isLive live]
        exact ih (.comma hgapAfter _) _
      rw [hrest, if_pos hkeeps]
      split
      · rfl
      · rename_i hends
        have hspace : chars (gapAfter m after marks) = [' '] := by
          rw [gapAfter, if_neg hends]
          rfl
        rw [if_pos ⟨hkeeps, hspace⟩]
        rfl

/-- Behind some text too, an edit replaces a comma with spacing around it, and puts in no semicolon. -/
theorem edits_pieces (h : Respaced off x marks marks') {before front : List Char}
    (hbehind : Behind x before) {e : Correction}
    (he : e ∈ edits off (byteLength front) before marks) :
    (∃ piece, e.span.chars? (front ++ chars marks) = some piece ∧ ',' ∈ piece ∧
      ∀ c ∈ piece, isSpacing c = true ∨ c = ',') ∧ ';' ∉ e.replacement.toList := by
  induction h generalizing before front with
  | @tail x gap hgap =>
      rw [← List.append_nil gap, edits_gap off hgap] at he
      cases he
  | @plain x gap marks marks' m hgap hard dead later ih =>
      rw [edits_gap off hgap, edits, dead, if_neg (by decide), ← byteLength_append] at he
      have hsplit : front ++ chars (gap ++ m :: marks) =
          front ++ chars gap ++ [m.char] ++ chars marks := by simp
      rw [hsplit]
      apply ih (.cons hard ((chars gap).reverse ++ before))
      rw [byteLength_append]
      exact he
  | @comma x gap after marks marks' m hgap live hafter hard later ih =>
      obtain ⟨char, line, shielded⟩ := m
      obtain rfl : char = ',' := char_of_isLive live
      rw [edits_gap off hgap, edits, live, if_pos rfl, edits_gap off hafter] at he
      have hsplit : front ++ chars (gap ++ ⟨',', line, shielded⟩ :: (after ++ marks)) =
          front ++ (chars gap ++ ',' :: chars after) ++ chars marks := by simp
      rw [hsplit]
      rcases List.mem_append.1 he with he | he
      · rw [chars_append] at he
        rcases Site.correction?_cases hbehind hgap hafter hard ⟨',', line, shielded⟩ with
          ⟨hnone, -, -⟩ | ⟨kept, old, back, replacement, hsome, hold, -, hcomma, hall, hsemicolon⟩
        · rw [hnone] at he
          cases he
        · rw [hsome] at he
          obtain rfl := List.mem_singleton.1 he
          refine ⟨⟨old, Span.chars?_eq_some_iff.2 ⟨front ++ kept, back ++ chars marks, ?_,
            byteLength_append _ _, rfl⟩, hcomma, hall⟩, hsemicolon⟩
          rw [hold]
          simp
      · apply ih (.comma hafter ((chars gap).reverse ++ before))
        simp only [byteLength_append, byteLength_cons, ← Nat.add_assoc] at he ⊢
        exact he

end Respaced

/-- Nothing stands before the beginning of a text. -/
theorem Behind.nil : Behind none [] where
  head := rfl
  hard := fun h => by cases h

/-- An edit replaces a comma with spacing around it, and puts in no semicolon. -/
theorem edits_pieces {off : Nat → Bool} {marks : List Mark} {e : Correction}
    (he : e ∈ edits off 0 [] marks) :
    (∃ piece, e.span.chars? (chars marks) = some piece ∧ ',' ∈ piece ∧
      ∀ c ∈ piece, isSpacing c = true ∨ c = ',') ∧ ';' ∉ e.replacement.toList := by
  obtain ⟨marks', h⟩ := Respaced.exists_respaced off none marks
  exact @Respaced.edits_pieces _ _ _ _ h [] [] .nil e he

/-- The edits of commas are independent. -/
theorem edits_independent (off : Nat → Bool) (marks : List Mark) :
    Correction.Independent (chars marks) (edits off 0 [] marks) where
  pieces := by
    intro e he
    obtain ⟨⟨piece, hpiece, hcomma, -⟩, -⟩ := edits_pieces he
    exact ⟨piece, hpiece, List.ne_nil_of_mem hcomma⟩
  apart := by
    obtain ⟨marks', h⟩ := Respaced.exists_respaced off none marks
    exact (h.spliced .nil 0).ascending.1.imp Or.inl

/-! ### The rule -/

theorem Site.location_of_correction? {site : Site} {e : Correction} (h : site.correction? = some e) :
    e.span.location = site.offset - site.excessBefore := by
  unfold correction? at h
  simp only at h
  split at h
  · split at h
    · cases h
    · obtain rfl := Option.some.inj h
      rfl
  · split at h
    · cases h
    · obtain rfl := Option.some.inj h
      rfl

/-- The edit of a comma begins at the comma or at spacing before it. -/
theorem Site.exists_of_correction? {front behind : List Char} {e : Correction}
    (h : Site.correction? ⟨byteLength front, front.reverse, behind⟩ = some e) :
    ∃ kept gap, front = kept ++ gap ∧ e.span.location = byteLength kept ∧
      ∀ c ∈ gap, isSpacing c = true := by
  have hlocation := Site.location_of_correction? h
  rw [Site.excessBefore_def] at hlocation
  split at hlocation
  · exact ⟨front, [], by simp, by simpa using hlocation, by simp⟩
  · obtain ⟨gap, kept, hfront, hgap, hkept⟩ := exists_span isSpacing front.reverse
    rw [hfront, takeWhile_span hgap hkept] at hlocation
    have hparts : front = kept.reverse ++ gap.reverse := by
      rw [← List.reverse_append, ← hfront, List.reverse_reverse]
    have hspacing : ∀ c ∈ gap.reverse, isSpacing c = true :=
      fun c hc => hgap c (List.mem_reverse.1 hc)
    have hlength := byteLength_of_spacing hspacing
    rw [List.length_reverse] at hlength
    refine ⟨kept.reverse, gap.reverse, hparts, ?_, hspacing⟩
    simp only at hlocation
    rw [hlocation, hparts, byteLength_append, hlength, Nat.add_sub_cancel]

/-- The edits that the rule asks for on the lines where it is not off are those of the marks. -/
theorem edits_eq {source : String} {front marks : List Mark} {placed : List PlacedLexeme}
    (h : Shading 0 "" 1 (front ++ marks) placed) (hsource : source.toList = chars (front ++ marks))
    (off : Nat → Bool) :
    ((((sitesFrom (byteLength (chars front)) (chars front).reverse (chars marks)).filter fun site =>
      (TokenFilter.excluding [.comment, .string]).accepts
        ((TokenStream.ofList (Shading.tokens placed)).kindsOverlapping ⟨site.offset, 1⟩)).filterMap
      Site.correction?).filter fun e =>
        !off ((LineIndex.ofString source).lineOf e.span.location)) =
      edits off (byteLength (chars front)) (chars front).reverse marks := by
  induction marks generalizing front with
  | nil => rfl
  | cons m marks ih =>
      have hsplit : front ++ m :: marks = (front ++ [m]) ++ marks := by simp
      have hrest := ih (hsplit ▸ h) (hsplit ▸ hsource)
      simp only [chars_append, chars_cons, chars_nil, byteLength_append, byteLength_cons,
        byteLength_nil, Nat.add_zero, List.reverse_append, List.reverse_singleton,
        List.singleton_append] at hrest
      rw [edits, ← hrest, chars_cons, sitesFrom]
      by_cases hcomma : m.char = ','
      · have hline : m.line = 1 + (chars front).count '\n' := h.linesFrom.line_eq
        have hpiece : Shading 0 "" 1 (front ++ [m] ++ marks) placed := by rwa [← hsplit]
        have haccepts := hpiece.accepts_eq (List.cons_ne_nil _ _)
        have hsize : byteLength (chars [m]) = 1 := by simp [hcomma]; rfl
        rw [hsize, List.all_cons, List.all_nil, Bool.and_true] at haccepts
        rw [if_pos hcomma]
        simp only [List.filter_cons, haccepts]
        cases hshielded : m.shielded with
        | true => simp [isLive, hshielded]
        | false =>
            have hlive : isLive off m = !off m.line := by simp [isLive, hcomma, hshielded]
            rw [Bool.not_false, if_pos rfl, hlive]
            cases he : Site.correction?
                ⟨byteLength (chars front), (chars front).reverse, chars marks⟩ with
            | none =>
                rw [List.filterMap_cons_none he, Option.toList_none, List.nil_append, ite_self]
            | some e =>
                obtain ⟨kept, gap, hfront, hlocation, hgap⟩ := Site.exists_of_correction? he
                have hnewline : '\n' ∉ gap := fun hmem => by simpa [isSpacing] using hgap _ hmem
                have hwhole : source.toList = kept ++ (gap ++ chars (m :: marks)) := by
                  rw [hsource, chars_append, hfront, List.append_assoc]
                have hsame : (LineIndex.ofString source).lineOf e.span.location = m.line := by
                  rw [hlocation, LineIndex.lineOf_append hwhole, hline, hfront, List.count_append,
                    List.count_eq_zero_of_not_mem hnewline, Nat.add_zero]
                rw [List.filterMap_cons_some he, List.filter_cons, hsame]
                rfl
      · have hdead : isLive off m = false := by simp [isLive, hcomma]
        rw [if_neg hcomma, hdead, if_neg (by decide)]

/-- No comma gets an edit when the rule is off everywhere. -/
theorem edits_off (offset : Nat) (before : List Char) (marks : List Mark) :
    edits (fun _ => true) offset before marks = [] := by
  induction marks generalizing offset before with
  | nil => rfl
  | cons m marks ih => simp [edits, isLive, ih]

end SourceLint.CommaSpacing
