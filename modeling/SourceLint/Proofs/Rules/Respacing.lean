import SourceLint.Proofs.Rules.CommaSpacing
import SourceLint.Proofs.Rules.TrailingSemicolon
import SourceLint.Proofs.Syntax.Retouching

/-!
# What respacing leaves alone

When the spacing around commas is set right, a text keeps its lines and is cut into lexemes as before.
The runs of semicolons at the ends of lines stay: none of them goes, and no other run gets to the end of
a line.
-/

namespace SourceLint

open Mark

/-! ### Runs of semicolons -/

namespace TrailingSemicolon

/-- The marks of the runs at the ends of lines, in a text right behind the semicolons of `run`. -/
def runMarks (run marks : List Mark) : List (List Mark) := (runsAt 0 run marks).map Prod.snd

/-- Where a text begins does not matter for the marks of its runs. -/
theorem map_snd_runsAt (offset offset' : Nat) (run marks : List Mark) :
    (runsAt offset run marks).map Prod.snd = (runsAt offset' run marks).map Prod.snd := by
  induction marks generalizing offset offset' run with
  | nil =>
      rw [runsAt, runsAt]
      split
      · rfl
      · rfl
  | cons m marks ih =>
      rw [runsAt, runsAt]
      split
      · exact ih _ _ _
      · simp only
        split
        · rw [List.map_cons, List.map_cons, ih _ (offset' + m.char.utf8Size)]
        · exact ih _ _ _

theorem runMarks_semicolon {m : Mark} (hm : m.char = ';') (run marks : List Mark) :
    runMarks run (m :: marks) = runMarks (run ++ [m]) marks := by
  rw [runMarks, runsAt, if_pos hm]
  exact map_snd_runsAt _ _ _ _

theorem runMarks_cons {m : Mark} (hm : m.char ≠ ';') (run marks : List Mark) :
    runMarks run (m :: marks) =
      (if run ≠ [] ∧ isRestBlank (chars (m :: marks)) then [run] else []) ++ runMarks [] marks := by
  rw [runMarks, runsAt, if_neg hm]
  simp only
  split
  · rw [List.map_cons, map_snd_runsAt _ 0]
    rfl
  · exact map_snd_runsAt _ _ _ _

theorem length_edits (off : Nat → Bool) (marks : List Mark) :
    (edits off marks).length = ((runMarks [] marks).filter (isLive off)).length := by
  rw [edits, List.length_map, runMarks, List.filter_map, List.length_map]
  rfl

/-- Runs of semicolons end in the same way before the two texts, and inside them they are the same. -/
structure RunsAlike (marks marks' : List Mark) : Prop where
  blank : isRestBlank (chars marks') = isRestBlank (chars marks)
  newline : (chars marks').head?.all (· == '\n') = (chars marks).head?.all (· == '\n')
  runs : ∀ run, runMarks run marks' = runMarks run marks

namespace RunsAlike

variable {marks marks' : List Mark}

theorem refl (marks : List Mark) : RunsAlike marks marks := ⟨rfl, rfl, fun _ => rfl⟩

theorem cons (h : RunsAlike marks marks') (m : Mark) : RunsAlike (m :: marks) (m :: marks') := by
  have hblank : isRestBlank (chars (m :: marks')) = isRestBlank (chars (m :: marks)) :=
    isRestBlank_append_congr h.blank h.newline [m.char]
  refine ⟨hblank, rfl, ?_⟩
  intro run
  by_cases hm : m.char = ';'
  · rw [runMarks_semicolon hm, runMarks_semicolon hm, h.runs]
  · rw [runMarks_cons hm, runMarks_cons hm, h.runs, hblank]

theorem append (h : RunsAlike marks marks') (piece : List Mark) :
    RunsAlike (piece ++ marks) (piece ++ marks') := by
  induction piece with
  | nil => exact h
  | cons m piece ih => exact ih.cons m

end RunsAlike

end TrailingSemicolon

namespace CommaSpacing

open TrailingSemicolon

variable {off : Nat → Bool} {x : Option Char} {gap marks marks' : List Mark} {m : Mark}

theorem IsGap.of_cons {gap : List Mark} (h : IsGap (m :: gap)) : isSpacing m.char = true ∧ IsGap gap :=
  ⟨h m List.mem_cons_self, fun d hd => h d (List.mem_cons_of_mem _ hd)⟩

theorem char_ne_of_isSpacing (h : isSpacing m.char = true) : m.char ≠ ';' ∧ m.char ≠ '\n' := by
  constructor
  · intro hm
    rw [hm] at h
    cases h
  · intro hm
    rw [hm] at h
    cases h

/-- Spacing and a comma end all runs before them. -/
theorem runMarks_comma (hgap : IsGap gap) (hm : m.char = ',') (run marks : List Mark) :
    isRestBlank (chars (gap ++ m :: marks)) = false ∧
      runMarks run (gap ++ m :: marks) = runMarks [] marks := by
  have hcomma : isRestBlank (chars (m :: marks)) = false := by
    rw [chars_cons, hm, isRestBlank_cons rfl]
    rfl
  induction gap generalizing run with
  | nil =>
      refine ⟨hcomma, ?_⟩
      rw [List.nil_append, runMarks_cons (by simp [hm]), hcomma]
      simp
  | cons d gap ih =>
      obtain ⟨hd, hrest⟩ := hgap.of_cons
      have hblank : isRestBlank (chars (d :: gap ++ m :: marks)) = false := by
        rw [List.cons_append, chars_cons, isRestBlank_spacing hd]
        exact (ih hrest []).1
      refine ⟨hblank, ?_⟩
      rw [List.cons_append] at hblank ⊢
      rw [runMarks_cons (char_ne_of_isSpacing hd).1, hblank, (ih hrest []).2]
      simp

/-- No run is pending behind a comma, so spacing there does not end one. -/
theorem runMarks_gap (hgap : IsGap gap) (marks : List Mark) :
    runMarks [] (gap ++ marks) = runMarks [] marks := by
  induction gap with
  | nil => rfl
  | cons d gap ih =>
      obtain ⟨hd, hrest⟩ := hgap.of_cons
      rw [List.cons_append, runMarks_cons (char_ne_of_isSpacing hd).1, ih hrest]
      simp

theorem head?_comma (hgap : IsGap gap) (hm : m.char = ',') (marks : List Mark) :
    (chars (gap ++ m :: marks)).head?.all (· == '\n') = false := by
  cases gap with
  | nil => simp [hm]
  | cons d gap => simp [(char_ne_of_isSpacing hgap.of_cons.1).2]

/-- The runs around two commas are the same when those behind them are. -/
theorem runsAlike_comma {gap' : List Mark} (hgap : IsGap gap) (hgap' : IsGap gap') (hm : m.char = ',')
    (h : runMarks [] marks' = runMarks [] marks) :
    RunsAlike (gap ++ m :: marks) (gap' ++ m :: marks') where
  blank := by rw [(runMarks_comma hgap hm [] _).1, (runMarks_comma hgap' hm [] _).1]
  newline := by rw [head?_comma hgap hm, head?_comma hgap' hm]
  runs := fun run => by rw [(runMarks_comma hgap hm run _).2, (runMarks_comma hgap' hm run _).2, h]

namespace Respaced

/-- Respacing changes nothing about runs of semicolons. -/
theorem runsAlike (h : Respaced off x marks marks') : RunsAlike marks marks' := by
  induction h with
  | tail => exact .refl _
  | @plain x gap marks marks' m hgap hard dead later ih => exact (ih.cons m).append gap
  | @comma x gap after marks marks' m hgap live hafter hard later ih =>
      apply runsAlike_comma hgap (isGap_gapBefore hgap x) (char_of_isLive live)
      rw [runMarks_gap hafter, runMarks_gap (isGap_gapAfter hafter m marks), ih.runs]

/-- When no run gets an edit before, none gets one behind. -/
theorem semicolon_edits_eq_nil (h : Respaced off x marks marks') {off' : Nat → Bool}
    (hedits : TrailingSemicolon.edits off' marks = []) : TrailingSemicolon.edits off' marks' = [] := by
  rw [← List.length_eq_zero_iff, length_edits] at hedits ⊢
  rw [h.runsAlike.runs, hedits]

end Respaced

/-! ### Lines -/

open Shading

theorem linesFrom_gap {line : Nat} (hgap : IsGap gap) :
    LinesFrom line (gap ++ marks) ↔ LinesFrom line gap ∧ LinesFrom line marks := by
  have hcount : (chars gap).count '\n' = 0 := by
    rw [List.count_eq_zero]
    intro hmem
    cases hgap.chars_spacing _ hmem
  rw [LinesFrom.append_iff, hcount, Nat.add_zero]

/-- The lines stay around a comma with its spacing set right when they stay behind it. -/
theorem linesFrom_comma {line : Nat} {after : List Mark} (hgap : IsGap gap) (live : isLive off m = true)
    (hafter : IsGap after) (hlines : LinesFrom line (gap ++ m :: (after ++ marks)))
    (hrest : LinesFrom line marks → LinesFrom line marks') :
    LinesFrom line (gapBefore x gap ++ m :: (gapAfter m after marks ++ marks')) := by
  obtain ⟨hfront, hline, hbehind⟩ := (linesFrom_gap hgap).1 hlines
  have hsame : lineAfter line m.char = line := by
    rw [char_of_isLive live]
    rfl
  rw [hsame] at hbehind
  obtain ⟨hspacing, hmarks⟩ := (linesFrom_gap hafter).1 hbehind
  refine (linesFrom_gap (isGap_gapBefore hgap x)).2 ⟨?_, hline, ?_⟩
  · rw [gapBefore]
    split
    · exact hfront
    · trivial
  · rw [hsame]
    refine (linesFrom_gap (isGap_gapAfter hafter m marks)).2 ⟨?_, hrest hmarks⟩
    rw [gapAfter]
    split
    · exact hspacing
    · exact ⟨hline, trivial⟩

/-- Respacing keeps the lines. -/
theorem Respaced.linesFrom {line : Nat} (h : Respaced off x marks marks')
    (hlines : LinesFrom line marks) : LinesFrom line marks' := by
  induction h generalizing line with
  | tail => exact hlines
  | @plain x gap marks marks' m hgap hard dead later ih =>
      obtain ⟨hfront, hline, hrest⟩ := (linesFrom_gap hgap).1 hlines
      exact (linesFrom_gap hgap).2 ⟨hfront, hline, ih hrest⟩
  | @comma x gap after marks marks' m hgap live hafter hard later ih =>
      exact linesFrom_comma hgap live hafter hlines ih

/-! ### Lexemes -/

/-- Spacing before a comma is not shielded unless the comma is. -/
theorem IsGap.free_before (h : (gap ++ m :: marks).IsChain Borders) (hgap : IsGap gap)
    (hm : m.shielded = false) (hchar : m.char ≠ '\n') : ∀ d ∈ gap, d.isFree = true := by
  have hunshielded := unshielded_before h hm hchar fun d hd =>
    ⟨Lexeme.isSeparator_of_isSpacing (hgap d hd), (char_ne_of_isSpacing (hgap d hd)).2⟩
  intro d hd
  exact isFree_iff.2 ⟨hgap d hd, hunshielded d hd⟩

/-- Spacing behind a comma is not shielded unless the comma is. -/
theorem IsGap.free_after (h : (m :: (gap ++ marks)).IsChain Borders) (hgap : IsGap gap)
    (hm : m.shielded = false) : ∀ d ∈ gap, d.isFree = true := by
  induction gap generalizing m with
  | nil => simp
  | cons d gap ih =>
      obtain ⟨hd, hrest⟩ := hgap.of_cons
      obtain ⟨hnext, hchain⟩ := List.isChain_cons.1 h
      have hshielded : d.shielded = false := by
        rw [Bool.eq_false_iff]
        intro hshielded
        cases ((hnext d rfl).begins hm hshielded).symm.trans (Lexeme.isSeparator_of_isSpacing hd)
      intro e he
      rcases List.mem_cons.1 he with rfl | he
      · rw [isFree, hd, hshielded]
        rfl
      · exact ih hchain hrest hshielded e he

end CommaSpacing

namespace Retouched

variable {goes : List Mark → Bool} {behind : Bool} {marks marks' : List Mark}

/-- A piece of the text in which no semicolon goes stays as it is. -/
theorem keepAll (h : Retouched goes false marks marks') {piece : List Mark}
    (hpiece : ∀ front m back, piece = front ++ m :: back → isGoing goes (m :: (back ++ marks)) = false) :
    Retouched goes behind (piece ++ marks) (piece ++ marks') := by
  induction piece generalizing behind with
  | nil =>
      cases behind with
      | true => exact h.toBehind
      | false => exact h
  | cons m piece ih =>
      refine .keep (hpiece [] m piece rfl) (ih ?_)
      rintro front d back rfl
      exact hpiece (m :: front) d back rfl

/-- Spacing stays as it is. -/
theorem keepGap {gap : List Mark} (h : Retouched goes false marks marks')
    (hgap : CommaSpacing.IsGap gap) : Retouched goes behind (gap ++ marks) (gap ++ marks') := by
  apply h.keepAll
  rintro front m back rfl
  apply isGoing_of_not_isSemicolon
  rw [Bool.eq_false_iff]
  intro hm
  exact (CommaSpacing.char_ne_of_isSpacing (hgap m (by simp))).1 (isSemicolon_iff.1 hm).1

/-- Spacing before a comma may be taken away. -/
theorem dropAllBefore {gap : List Mark} (hgap : ∀ m ∈ gap, m.isFree = true)
    (hcomma : beforeComma marks = true) (h : Retouched goes behind marks marks') :
    Retouched goes behind (gap ++ marks) marks' ∧ beforeComma (gap ++ marks) = true := by
  induction gap with
  | nil => exact ⟨h, hcomma⟩
  | cons m gap ih =>
      obtain ⟨hdropped, hnext⟩ := ih fun d hd => hgap d (List.mem_cons_of_mem _ hd)
      have hm := hgap m List.mem_cons_self
      refine ⟨.dropBefore hm hnext hdropped, ?_⟩
      rw [List.cons_append, beforeComma, hm, hnext]
      simp

end Retouched

namespace CommaSpacing

open Shading

variable {goes : List Mark → Bool} {off : Nat → Bool} {x : Option Char} {marks marks' : List Mark}

/-- Around a comma spacing is taken away and put in as retouching may. -/
theorem retouched_comma {gap after : List Mark} {m : Mark}
    (hchain : (gap ++ m :: (after ++ marks)).IsChain Borders) (hgap : IsGap gap)
    (live : isLive off m = true) (hafter : IsGap after) (hrest : Retouched goes false marks marks') :
    Retouched goes false (gap ++ m :: (after ++ marks))
      (gapBefore x gap ++ m :: (gapAfter m after marks ++ marks')) := by
  have hm : m.char = ',' ∧ m.shielded = false := by
    simp only [isLive, Bool.and_eq_true, beq_iff_eq, Bool.not_eq_true'] at live
    exact live.1
  have hcomma : m.isComma = true := by simp [isComma, hm]
  have hsemicolon : m.isSemicolon = false := by simp [isSemicolon, hm]
  have hbefore := IsGap.free_before hchain hgap hm.2 (by simp [hm.1])
  have hfree := IsGap.free_after hchain.right_of_append hafter hm.2
  have hkept : Retouched goes false (m :: (after ++ marks))
      (m :: (gapAfter m after marks ++ marks')) := by
    rw [gapAfter]
    split
    · exact .keep (isGoing_of_not_isSemicolon hsemicolon _ _) (hrest.keepGap hafter)
    · exact .respace hcomma (hrest.toBehind.dropAll hfree)
  rw [gapBefore]
  split
  · exact hkept.keepGap hgap
  · have hnext : beforeComma (m :: (after ++ marks)) = true := by simp [beforeComma, hcomma]
    exact (hkept.dropAllBefore hbefore hnext).1

/-- Respacing takes spacing away next to commas, and puts spacing in behind them. No semicolon goes. -/
theorem Respaced.retouched (h : Respaced off x marks marks') (hchain : marks.IsChain Borders) :
    Retouched (fun _ => false) false marks marks' := by
  induction h with
  | @tail x gap hgap =>
      have hkeep : Retouched (fun _ => false) false (gap ++ []) (gap ++ []) := Retouched.nil.keepGap hgap
      rwa [List.append_nil] at hkeep
  | @plain x gap marks marks' m hgap hard dead later ih =>
      have hrest := ih (List.isChain_cons.1 hchain.right_of_append).2
      have hstays : isGoing (fun _ => false) (m :: marks) = false := Bool.and_false _
      exact (hrest.keep hstays).keepGap hgap
  | @comma x gap after marks marks' m hgap live hafter hard later ih =>
      have hrest := ih (List.isChain_cons.1 hchain.right_of_append).2.right_of_append
      exact retouched_comma hchain hgap live hafter hrest

/-- A text with its marks that is respaced is cut as before and has the same directives. No comma needs
an edit in it any more, and no run of semicolons does when none did before. -/
theorem Respaced.settles {placed : List PlacedLexeme} (h : Respaced off none marks marks')
    (hshading : Shading 0 "" 1 marks placed) :
    (∃ placed', Shading 0 "" 1 marks' placed' ∧ remarks placed' = remarks placed) ∧
      edits off 0 [] marks' = [] ∧
      ∀ off', TrailingSemicolon.edits off' marks = [] → TrailingSemicolon.edits off' marks' = [] := by
  have hcut := cutInto_of_retouched hshading (h.retouched hshading.isChain_borders)
    (h.linesFrom hshading.linesFrom)
  obtain ⟨placed', hshading', henclosed⟩ := hcut 0 ""
  exact ⟨⟨placed', hshading', remarks_congr henclosed⟩, h.edits_eq_nil .nil 0,
    fun off' => h.semicolon_edits_eq_nil⟩

end CommaSpacing

end SourceLint
