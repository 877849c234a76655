import SourceLint.Proofs.Linter.Passes
import SourceLint.Proofs.Linter.Preservation

/-!
# Lines that are left alone

Each edit lies within one line, the line of the violation that asks for it. So a line on which directives
turn both correcting rules off is not touched by a pass. The pass keeps the comments and their lines, and
with them the directives, so the same line is off in the next pass, and no run of correction changes it.
-/

namespace SourceLint

/-! ### Marks on a line -/

namespace Mark

/-- The marks on a line. -/
def onLine (line : Nat) (marks : List Mark) : List Mark := marks.filter fun m => m.line == line

@[simp] theorem onLine_append (line : Nat) (marks more : List Mark) :
    onLine line (marks ++ more) = onLine line marks ++ onLine line more := by
  simp [onLine]

theorem onLine_cons (line : Nat) (m : Mark) (marks : List Mark) :
    onLine line (m :: marks) = if m.line = line then m :: onLine line marks else onLine line marks := by
  simp [onLine, List.filter_cons]

/-- Nothing of a piece of one line is on another line. -/
theorem onLine_eq_nil {line start : Nat} {piece : List Mark} (hpiece : ∀ m ∈ piece, m.line = start)
    (hne : start ≠ line) : onLine line piece = [] := by
  rw [onLine, List.filter_eq_nil_iff]
  intro m hm
  rw [hpiece m hm, beq_iff_eq]
  exact hne

end Mark

namespace Shading

open Mark

variable {line start : Nat} {marks : List Mark}

theorem LinesFrom.le_line (h : LinesFrom start marks) : ∀ m ∈ marks, start ≤ m.line := by
  intro m hm
  obtain ⟨front, back, rfl⟩ := List.append_of_mem hm
  rw [h.line_eq]
  exact Nat.le_add_right _ _

/-- A piece without newlines is on one line. -/
theorem LinesFrom.line_eq_of_plain (h : LinesFrom start marks) (hplain : ∀ m ∈ marks, m.char ≠ '\n') :
    ∀ m ∈ marks, m.line = start := by
  intro m hm
  obtain ⟨front, back, rfl⟩ := List.append_of_mem hm
  have hcount : (chars front).count '\n' = 0 := by
    rw [List.count_eq_zero]
    intro hmem
    obtain ⟨d, hd, hchar⟩ := List.mem_map.1 hmem
    exact hplain d (List.mem_append_left _ hd) hchar
  rw [h.line_eq, hcount, Nat.add_zero]

/-- The lines of a text are read off its marks: on each line are its characters and the newline that ends
it. -/
theorem LinesFrom.getElem?_splitOn (h : LinesFrom start marks) (k : Nat) :
    ((chars marks).splitOn '\n')[k]? =
      if k ≤ (chars marks).count '\n' then
        some ((chars (onLine (start + k) marks)).filter (· ≠ '\n'))
      else none := by
  induction marks generalizing start k with
  | nil => cases k <;> simp [onLine]
  | cons m marks ih =>
      obtain ⟨rfl, hrest⟩ := h
      have hsplit : (chars (m :: marks)).splitOn '\n' =
          if m.char = '\n' then [] :: (chars marks).splitOn '\n'
          else ((chars marks).splitOn '\n').modifyHead (m.char :: ·) := by
        rw [chars_cons, List.splitOn, List.splitOnP_cons_eq_if_modifyHead]
        simp only [beq_iff_eq]
        rfl
      rw [hsplit, chars_cons, List.count_cons]
      by_cases hm : m.char = '\n'
      · rw [lineAfter, if_pos hm] at hrest
        cases k with
        | zero =>
            have hlater : onLine m.line marks = [] := by
              rw [onLine, List.filter_eq_nil_iff]
              intro d hd
              have := hrest.le_line d hd
              rw [beq_iff_eq]
              omega
            simp [hm, onLine_cons, hlater]
        | succ k =>
            have hne : m.line ≠ m.line + (k + 1) := by omega
            have hline : m.line + (k + 1) = m.line + 1 + k := by omega
            rw [onLine_cons, if_neg hne, hline]
            simp only [hm, if_true, List.getElem?_cons_succ, ih hrest, BEq.rfl,
              Nat.add_le_add_iff_right]
      · rw [lineAfter, if_neg hm] at hrest
        cases k with
        | zero =>
            have hfirst := ih hrest 0
            rw [Nat.add_zero] at hfirst ⊢
            simp [hm, onLine_cons, List.getElem?_modifyHead, hfirst]
        | succ k =>
            have hne : m.line ≠ m.line + (k + 1) := by omega
            simp [hm, onLine_cons, ih hrest]

end Shading

/-! ### Tidying -/

namespace Tidied

open Mark Shading

variable {offSemicolon offComma : Nat → Bool} {x : Option Char} {marks marks' : List Mark}
  {line start : Nat}

/-- Tidying leaves a line alone on which both rules are off. -/
theorem onLine_eq (h : Tidied offSemicolon offComma x marks marks') (hlines : LinesFrom start marks)
    (hsemicolon : offSemicolon line = true) (hcomma : offComma line = true) :
    onLine line marks' = onLine line marks := by
  induction h generalizing start with
  | tail => rfl
  | @plain x gap marks marks' m hgap hard hm dead later ih =>
      obtain ⟨-, -, hrest⟩ := (CommaSpacing.linesFrom_gap hgap).1 hlines
      rw [onLine_append, onLine_append, onLine_cons, onLine_cons, ih hrest]
  | @comma x gap after marks marks' m hgap live hafter hard later ih =>
      obtain ⟨hfront, hline, hbehind⟩ := (CommaSpacing.linesFrom_gap hgap).1 hlines
      have hchar := CommaSpacing.char_of_isLive live
      have hsame : lineAfter start m.char = start := by simp [lineAfter, hchar]
      rw [hsame] at hbehind
      obtain ⟨hspacing, hmarks⟩ := (CommaSpacing.linesFrom_gap hafter).1 hbehind
      -- the rule is on for the line of the comma, so this is another line
      have hne : start ≠ line := by
        rintro rfl
        rw [CommaSpacing.isLive, hline, hcomma] at live
        simp at live
      have hplain : ∀ {gap : List Mark}, CommaSpacing.IsGap gap → ∀ d ∈ gap, d.char ≠ '\n' :=
        fun hgap d hd => (CommaSpacing.char_ne_of_isSpacing (hgap d hd)).2
      have hgapBefore : ∀ d ∈ CommaSpacing.gapBefore x gap, d.line = start := by
        intro d hd
        rw [CommaSpacing.gapBefore] at hd
        split at hd
        · exact hfront.line_eq_of_plain (hplain hgap) d hd
        · cases hd
      have hgapAfter : ∀ d ∈ CommaSpacing.gapAfter m after marks, d.line = start := by
        intro d hd
        rw [CommaSpacing.gapAfter] at hd
        split at hd
        · exact hspacing.line_eq_of_plain (hplain hafter) d hd
        · rw [List.mem_singleton.1 hd]
          exact hline
      have hm : m.line ≠ line := hline ▸ hne
      rw [onLine_append, onLine_append, onLine_cons, onLine_cons, if_neg hm, if_neg hm, onLine_append,
        onLine_append, onLine_eq_nil hgapBefore hne, onLine_eq_nil hgapAfter hne,
        onLine_eq_nil (hfront.line_eq_of_plain (hplain hgap)) hne,
        onLine_eq_nil (hspacing.line_eq_of_plain (hplain hafter)) hne, ih hmarks]
  | @stay x gap run marks marks' hgap hrun hnext stays later ih =>
      obtain ⟨-, hrest⟩ := (CommaSpacing.linesFrom_gap hgap).1 hlines
      obtain ⟨-, hrest⟩ := LinesFrom.append_iff.1 hrest
      simp only [onLine_append, ih hrest]
  | @go x gap run marks marks' hgap hrun hnext ends live later ih =>
      obtain ⟨-, hrest⟩ := (CommaSpacing.linesFrom_gap hgap).1 hlines
      obtain ⟨hkept, hrest⟩ := LinesFrom.append_iff.1 hrest
      have hplain : ∀ m ∈ run, m.char ≠ '\n' := by
        intro m hm
        rw [hrun.semicolons m hm]
        decide
      have hlineRun := hkept.line_eq_of_plain hplain
      -- the rule is on for the line of the run, so this is another line
      have hne : start ≠ line := by
        rintro rfl
        obtain ⟨m, rest, rfl⟩ := List.exists_cons_of_ne_nil hrun.nonempty
        rw [TrailingSemicolon.isLive, List.head?_cons, Option.any_some,
          hlineRun m List.mem_cons_self, hsemicolon] at live
        simp at live
      rw [onLine_append, onLine_append, onLine_append, onLine_eq_nil hlineRun hne, List.nil_append,
        ih hrest]

end Tidied

/-! ### Passes -/

namespace Corrector

open Mark Shading

variable {config : Config} {linter : Linter} {corrector : Corrector} {source : String}
  {violations : List Violation} {limit line : Nat} {result : CorrectedText}

/-- Directives of the text turn both correcting rules off on a line. -/
structure LeavesAlone (line : Nat) (placed : List PlacedLexeme) : Prop where
  semicolons : (suppression placed).isDisabled TrailingSemicolon.identifier line = true
  commas : (suppression placed).isDisabled CommaSpacing.identifier line = true

theorem LeavesAlone.isOff {placed : List PlacedLexeme} (h : LeavesAlone line placed) (on : Bool) :
    Shading.isOff on placed TrailingSemicolon.identifier line = true ∧
      Shading.isOff on placed CommaSpacing.identifier line = true := by
  rw [Shading.isOff, Shading.isOff, h.semicolons, h.commas, Bool.or_true]
  exact ⟨rfl, rfl⟩

/-- A pass keeps a line that is left alone, and it is left alone in the corrected text. -/
theorem pass_keeps_line (hlinter : Linter.ofConfig config = .ok linter)
    (hlint : linter.lint source = .ok violations) (corrector : Corrector) {marks : List Mark}
    {placed : List PlacedLexeme} (hshading : Shading 0 "" 1 marks placed)
    (hsource : source.toList = chars marks) (halone : LeavesAlone line placed) :
    ∃ marks' placed', Shading 0 "" 1 marks' placed' ∧
      (corrector.apply source violations).content.toList = chars marks' ∧
      LeavesAlone line placed' ∧ onLine line marks' = onLine line marks ∧
      (chars marks').count '\n' = (chars marks).count '\n' := by
  obtain ⟨semicolons, commas, hproposals⟩ := Linter.exists_proposals hlinter corrector
  have hedits := hproposals source violations marks placed hlint hshading hsource
  obtain ⟨marks', htidied⟩ := Tidied.exists_tidied
    (Shading.isOff semicolons placed TrailingSemicolon.identifier)
    (Shading.isOff commas placed CommaSpacing.identifier) none marks
  have hretouched := htidied.retouched hshading.isChain_borders
  obtain ⟨placed', hshading', henclosed⟩ := Shading.cutInto_of_retouched hshading hretouched
    (htidied.linesFrom hshading.linesFrom) 0 ""
  have hsuppression : suppression placed' = suppression placed := by
    rw [suppression, suppression, remarks_congr henclosed]
  exact ⟨marks', placed', hshading', content_of_tidied hsource _ _ hedits htidied,
    ⟨hsuppression ▸ halone.semicolons, hsuppression ▸ halone.commas⟩,
    htidied.onLine_eq hshading.linesFrom (halone.isOff semicolons).1 (halone.isOff commas).2,
    hretouched.count_newline⟩

/-- A run keeps a line that is left alone. -/
theorem run_keeps_line (hlinter : Linter.ofConfig config = .ok linter) {marks : List Mark}
    {placed : List PlacedLexeme} (hshading : Shading 0 "" 1 marks placed)
    (hsource : source.toList = chars marks) (halone : LeavesAlone line placed)
    (h : corrector.correct linter limit source = .ok result) :
    ∃ marks' placed', Shading 0 "" 1 marks' placed' ∧ result.content.toList = chars marks' ∧
      onLine line marks' = onLine line marks ∧
      (chars marks').count '\n' = (chars marks).count '\n' := by
  induction limit generalizing source marks placed result with
  | zero =>
      obtain rfl := Except.ok.inj h
      exact ⟨marks, placed, hshading, hsource, rfl, rfl⟩
  | succ limit ih =>
      obtain ⟨violations, hlint, ⟨-, rfl⟩ | ⟨-, later, hlater, rfl⟩⟩ := correct_succ h
      · exact ⟨marks, placed, hshading, hsource, rfl, rfl⟩
      · obtain ⟨marks', placed', hshading', hcontent, halone', hline, hcount⟩ :=
          pass_keeps_line hlinter hlint corrector hshading hsource halone
        obtain ⟨marks'', placed'', hshading'', hresult, hline', hcount'⟩ :=
          ih hshading' hcontent halone' hlater
        exact ⟨marks'', placed'', hshading'', hresult, hline'.trans hline, hcount'.trans hcount⟩

/-- Where the directives of a source text turn both correcting rules off, a line stays as it is, however
many passes are allowed and whatever becomes of the other lines. The number of lines stays too. Lines
count from 1. -/
theorem correct_keeps_disabled_line (hlinter : Linter.ofConfig config = .ok linter)
    (hoff : ∀ snapshot, Snapshot.ofSource source = .ok snapshot →
      ∀ rule ∈ [TrailingSemicolon.identifier, CommaSpacing.identifier],
        (Suppression.ofTokens source snapshot.tokens (.ofString source)).isDisabled rule (line + 1) = true)
    (h : corrector.correct linter limit source = .ok result) :
    (LineIndex.ofString result.content).lineCount = (LineIndex.ofString source).lineCount ∧
      (result.content.toList.splitOn '\n')[line]? = (source.toList.splitOn '\n')[line]? := by
  cases limit with
  | zero =>
      obtain rfl := Except.ok.inj h
      exact ⟨rfl, rfl⟩
  | succ limit =>
      obtain ⟨violations, hlint, -⟩ := correct_succ h
      obtain ⟨-, -, -, -, -, hprovider, -⟩ := Linter.exists_rules hlinter
      obtain ⟨snapshot, hsnapshot, -⟩ := exceptMap_eq_ok_iff.1 hlint
      rw [hprovider] at hsnapshot
      obtain ⟨marks, placed, hshading, hsource⟩ := Linter.exists_shading hlinter hlint
      have hdisabled := hoff snapshot hsnapshot
      rw [hshading.tokens_of_ofSource hsource hsnapshot, hshading.suppression_eq hsource] at hdisabled
      have halone : LeavesAlone (line + 1) placed :=
        ⟨hdisabled _ List.mem_cons_self, hdisabled _ (List.mem_cons_of_mem _ List.mem_cons_self)⟩
      obtain ⟨marks', placed', hshading', hcontent, hline, hcount⟩ :=
        run_keeps_line hlinter hshading hsource halone h
      constructor
      · simp only [LineIndex.lineCount, LineIndex.ofString, List.size_toArray, List.length_cons,
          length_offsetsAfterNewlines, hcontent, hsource, hcount]
      · rw [hcontent, hsource, hshading'.linesFrom.getElem?_splitOn,
          hshading.linesFrom.getElem?_splitOn, hcount, Nat.add_comm 1 line, hline]

/-- The first line takes two passes. The last line has the same faults and is kept out. -/
theorem correct_keeps_disabled_line_next :
    let source := "f(1 ,2); ;\n// sift:disable:next\ng(1 ,2);"
    ∃ linter result, Linter.ofConfig {} = .ok linter ∧
      (Corrector.ofConfig {}).correct linter 2 source = .ok result ∧
      result.passes = 2 ∧
      result.content = "f(1, 2) \n// sift:disable:next\ng(1 ,2);" ∧
      (LineIndex.ofString result.content).lineCount = (LineIndex.ofString source).lineCount ∧
      (result.content.toList.splitOn '\n')[2]? = (source.toList.splitOn '\n')[2]? := by
  intro source
  have hrun : ((Linter.ofConfig {}).toOption.any fun linter =>
      ((Corrector.ofConfig {}).correct linter 2 source).toOption.any fun result =>
        result.passes == 2 &&
          result.content == "f(1, 2) \n// sift:disable:next\ng(1 ,2);") = true := by
    decide +kernel
  have hread : ((Snapshot.ofSource source).toOption.any fun snapshot =>
      [TrailingSemicolon.identifier, CommaSpacing.identifier].all fun rule =>
        (Suppression.ofTokens source snapshot.tokens (.ofString source)).isDisabled rule (2 + 1)) =
          true := by
    decide +kernel
  obtain ⟨linter, hlinter, hrun⟩ := exists_of_toOption_any hrun
  obtain ⟨result, hresult, hrun⟩ := exists_of_toOption_any hrun
  obtain ⟨snapshot, hsnapshot, hoff⟩ := exists_of_toOption_any hread
  simp only [Bool.and_eq_true, beq_iff_eq] at hrun
  rw [List.all_eq_true] at hoff
  refine ⟨linter, result, hlinter, hresult, hrun.1, hrun.2, ?_⟩
  refine correct_keeps_disabled_line hlinter ?_ hresult
  intro other hother
  obtain rfl := Except.ok.inj (hsnapshot.symm.trans hother)
  exact hoff

end Corrector

end SourceLint
