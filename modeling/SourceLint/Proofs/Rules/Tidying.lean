import SourceLint.Proofs.Rules.Respacing

/-!
# What both kinds of edits amount to

The edits of semicolons and the edits of commas, made at once, remove runs of semicolons at the ends of
lines and set the spacing around commas right. Nothing else changes.

## Implementation notes

`Tidied` goes through the old text like `Respaced`, with one more step for a whole run of
semicolons. All conditions are on the old text: whether a run ends its line and whether a comma does
is decided before any edit is made. The edits of the two rules come as two lists, each in ascending
order; `Tidied` takes them one by one in the order of their places, so it splices a permutation of
both.
-/

namespace SourceLint

open Mark

namespace TrailingSemicolon

variable {run marks : List Mark}

/-- The edits of the runs that may get one, in a text that begins at an offset. -/
def editsAt (off : Nat → Bool) (offset : Nat) (marks : List Mark) : List Correction :=
  ((runsAt offset [] marks).filter fun run => isLive off run.2).map fun run => .deletion (spanOf run)

theorem runsAt_append {piece : List Mark} (hpiece : ∀ m ∈ piece, m.char ≠ ';') (offset : Nat)
    (marks : List Mark) :
    runsAt offset [] (piece ++ marks) = runsAt (offset + byteLength (chars piece)) [] marks := by
  induction piece generalizing offset with
  | nil => rfl
  | cons m piece ih =>
      rw [List.cons_append, runsAt, if_neg (hpiece m List.mem_cons_self),
        ih fun d hd => hpiece d (List.mem_cons_of_mem _ hd)]
      simp [Nat.add_assoc]

/-- A piece without semicolons gets no edit. -/
theorem editsAt_append {piece : List Mark} (hpiece : ∀ m ∈ piece, m.char ≠ ';') (off : Nat → Bool)
    (offset : Nat) (marks : List Mark) :
    editsAt off offset (piece ++ marks) = editsAt off (offset + byteLength (chars piece)) marks := by
  rw [editsAt, runsAt_append hpiece, editsAt]

/-- Semicolons join the run before them. -/
theorem runsAt_semicolons (hrun : ∀ m ∈ run, m.char = ';') (offset : Nat) (front : List Mark) :
    runsAt offset front (run ++ marks) = runsAt (offset + run.length) (front ++ run) marks := by
  induction run generalizing offset front with
  | nil => simp
  | cons m run ih =>
      rw [List.cons_append, runsAt, if_pos (hrun m List.mem_cons_self),
        ih fun d hd => hrun d (List.mem_cons_of_mem _ hd)]
      rw [List.length_cons, List.append_cons front m run, Nat.add_right_comm, Nat.add_assoc]

/-- A run is over where no other semicolon follows. -/
theorem runsAt_over (hne : run ≠ []) (hnext : ∀ m ∈ marks.head?, m.char ≠ ';') (offset : Nat) :
    runsAt offset run marks =
      (if isRestBlank (chars marks) then [(offset - run.length, run)] else []) ++
        runsAt offset [] marks := by
  cases marks with
  | nil => simp [runsAt, hne, isRestBlank]
  | cons m marks =>
      have hm : m.char ≠ ';' := hnext m rfl
      rw [runsAt, if_neg hm, runsAt, if_neg hm]
      cases hblank : isRestBlank (chars (m :: marks)) with
      | true => simp [hne]
      | false => simp

/-- The edits of a text up to the end of a run are the edit of this run. -/
theorem editsAt_run (hrun : IsRun run) (hnext : ∀ m ∈ marks.head?, m.char ≠ ';') (off : Nat → Bool)
    (offset : Nat) :
    editsAt off offset (run ++ marks) =
      (if isRestBlank (chars marks) ∧ isLive off run then
        [.deletion ⟨offset, byteLength (chars run)⟩] else []) ++
        editsAt off (offset + byteLength (chars run)) marks := by
  have hlength := byteLength_run hrun.semicolons
  have hstart : offset + run.length - run.length = offset := Nat.add_sub_cancel _ _
  rw [editsAt, runsAt_semicolons hrun.semicolons, List.nil_append, runsAt_over hrun.nonempty hnext,
    List.filter_append, List.map_append, hlength, hstart, editsAt]
  congr 1
  cases isRestBlank (chars marks) with
  | true =>
      cases hlive : isLive off run with
      | true => simp [hlive, spanOf]
      | false => simp [hlive]
  | false => simp

/-! ### The semicolons that go -/

/-- An edit covers the byte at an offset. -/
def covered (edits : List Correction) (offset : Nat) : Bool :=
  edits.any fun e => e.span.covers ⟨offset, 1⟩

theorem covers_iff {r : Span} {offset : Nat} :
    r.covers ⟨offset, 1⟩ = true ↔ r.location ≤ offset ∧ offset < r.stop := by
  rw [Span.covers, Bool.and_eq_true, decide_eq_true_iff, decide_eq_true_iff]
  rfl

/-- An edit of the text covers the byte from which on the rest of the text is left. -/
def goesIn (edits : List Correction) (marks rest : List Mark) : Bool :=
  covered edits (byteLength (chars marks) - byteLength (chars rest))

theorem picks_goesIn (edits : List Correction) (marks : List Mark) :
    Picks (goesIn edits marks) (covered edits) 0 marks := by
  rintro front back rfl
  rw [goesIn, chars_append, byteLength_append, Nat.add_sub_cancel, Nat.zero_add]

theorem le_location_of_mem_editsAt {off : Nat → Bool} {offset : Nat} {e : Correction}
    (he : e ∈ editsAt off offset marks) : offset ≤ e.span.location := by
  obtain ⟨r, hr, rfl⟩ := List.mem_map.1 he
  exact (@pairwise_runsAt [] marks offset (Nat.zero_le _)).2 r (List.mem_filter.1 hr).1

/-- No edit covers a byte before its text. -/
theorem covered_before {off : Nat → Bool} {offset place : Nat} (hplace : place < offset) :
    covered (editsAt off offset marks) place = false := by
  rw [covered, List.any_eq_false]
  intro e he
  rw [covers_iff]
  have := le_location_of_mem_editsAt he
  omega

/-- The semicolons that go are those in the edits of the runs, as far as a text at an offset is
concerned. -/
def PicksRuns (goes : List Mark → Bool) (off : Nat → Bool) (offset : Nat) (marks : List Mark) : Prop :=
  Picks goes (covered (editsAt off offset marks)) offset marks

namespace PicksRuns

variable {goes : List Mark → Bool} {off : Nat → Bool} {offset : Nat}

theorem of_append {piece : List Mark} (h : PicksRuns goes off offset (piece ++ marks))
    (hpiece : ∀ m ∈ piece, m.char ≠ ';') :
    PicksRuns goes off (offset + byteLength (chars piece)) marks := by
  have hrest := Picks.of_append h
  rwa [editsAt_append hpiece] at hrest

/-- Whether a semicolon goes depends on its run. -/
theorem run_eq {front back : List Mark} {m : Mark} (h : PicksRuns goes off offset (run ++ marks))
    (hrun : IsRun run) (hnext : ∀ m ∈ marks.head?, m.char ≠ ';') (hsplit : run = front ++ m :: back) :
    goes (m :: (back ++ marks)) = decide (isRestBlank (chars marks) ∧ isLive off run) := by
  have hlength : byteLength (chars front) + 1 ≤ byteLength (chars run) := by
    have := m.char.utf8Size_pos
    rw [hsplit, chars_append, byteLength_append, chars_cons, byteLength_cons]
    omega
  have hlater : covered (editsAt off (offset + byteLength (chars run)) marks)
      (offset + byteLength (chars front)) = false := covered_before (by omega)
  rw [h front (m :: (back ++ marks)) (by simp [hsplit]), editsAt_run hrun hnext, covered,
    List.any_append, ← covered, ← covered, hlater, Bool.or_false]
  split
  · rename_i hgoes
    rw [decide_eq_true hgoes, covered, List.any_cons, List.any_nil, Bool.or_false, covers_iff]
    exact ⟨Nat.le_add_right _ _, Nat.add_lt_add_left hlength _⟩
  · rename_i hstays
    rw [decide_eq_false hstays]
    rfl

theorem of_run (h : PicksRuns goes off offset (run ++ marks)) (hrun : IsRun run)
    (hnext : ∀ m ∈ marks.head?, m.char ≠ ';') :
    PicksRuns goes off (offset + byteLength (chars run)) marks := by
  rintro front back hsplit
  rw [Picks.of_append h front back hsplit, editsAt_run hrun hnext, covered, List.any_append, ← covered,
    ← covered]
  have hearlier : covered [.deletion ⟨offset, byteLength (chars run)⟩]
      (offset + byteLength (chars run) + byteLength (chars front)) = false := by
    rw [covered, List.any_cons, List.any_nil, Bool.or_false, Bool.eq_false_iff, ne_eq, covers_iff]
    exact fun h => absurd h.2 (by simp [Correction.deletion, Span.stop])
  split
  · rw [hearlier, Bool.false_or]
  · rfl

end PicksRuns

theorem isSemicolon_of_isLive {off : Nat → Bool} (hrun : IsRun run) (hlive : isLive off run = true) :
    ∀ m ∈ run, m.isSemicolon = true := by
  rw [isLive, Bool.and_eq_true, List.all_eq_true] at hlive
  intro m hm
  rw [isSemicolon_iff]
  exact ⟨hrun.semicolons m hm, by simpa using hlive.1 m hm⟩

end TrailingSemicolon

namespace Retouched

variable {goes : List Mark → Bool} {behind : Bool} {marks marks' : List Mark}

/-- A run of semicolons at the end of its line may be taken away. -/
theorem removeAll {run : List Mark} (hrun : ∀ m ∈ run, m.isSemicolon = true)
    (hgoes : ∀ front m back, run = front ++ m :: back → goes (m :: (back ++ marks)) = true)
    (hends : TrailingSemicolon.isRestBlank (chars marks) = true)
    (h : Retouched goes false marks marks') : Retouched goes false (run ++ marks) marks' := by
  induction run with
  | nil => exact h
  | cons m run ih =>
      have hgoing : ∀ {d : Mark} {back : List Mark}, d.isSemicolon = true →
          goes (d :: (back ++ marks)) = true → isGoing goes (d :: (back ++ marks)) = true := by
        intro d back hd hgoes
        rw [isGoing, List.head?_cons, Option.any_some, hd, hgoes]
        rfl
      have hm := hrun m List.mem_cons_self
      have hrest : ∀ d ∈ run, d.isSemicolon = true := fun d hd => hrun d (List.mem_cons_of_mem _ hd)
      have hclosing : isClosing goes (run ++ marks) = true := by
        cases run with
        | nil => rw [isClosing, List.nil_append, hends, Bool.true_or]
        | cons d run =>
            have hd := hgoing (hrest d List.mem_cons_self) (hgoes [m] d run rfl)
            rw [isClosing, List.cons_append, hd, Bool.or_true]
      refine .remove (hgoing hm (hgoes [] m run rfl)) hclosing (ih hrest ?_)
      rintro front d back rfl
      exact hgoes (m :: front) d back rfl

/-- Retouching keeps the number of newlines. -/
theorem count_newline (h : Retouched goes behind marks marks') :
    (chars marks').count '\n' = (chars marks).count '\n' := by
  have hfree : ∀ {m : Mark} {marks : List Mark}, m.isFree = true →
      (chars (m :: marks)).count '\n' = (chars marks).count '\n' := by
    intro m marks free
    rw [chars_cons, List.count_cons_of_ne]
    intro hchar
    rw [isFree, hchar] at free
    cases free
  induction h with
  | nil => rfl
  | keep _ _ ih => rw [chars_cons, chars_cons, List.count_cons, List.count_cons, ih]
  | @respace _ marks marks' m comma _ ih =>
      have hspace : (⟨' ', m.line, false⟩ : Mark).isFree = true := rfl
      rw [chars_cons, chars_cons m marks, List.count_cons, List.count_cons, hfree hspace, ih]
  | dropBehind free _ ih => rw [hfree free, ih]
  | dropBefore free _ _ ih => rw [hfree free, ih]
  | @remove _ marks marks' m going _ _ ih =>
      have hm : m.char ≠ '\n' := by simp [(isSemicolon_iff.1 (isSemicolon_of_isGoing going)).1]
      rw [chars_cons, List.count_cons_of_ne hm, ih]

end Retouched

open CommaSpacing (IsGap Behind gapBefore gapAfter)

/-- In a text that stands behind `x`, the runs of semicolons that may get an edit are removed, and the
spacing around each comma that may get one is set right. -/
inductive Tidied (offSemicolon offComma : Nat → Bool) : Option Char → List Mark → List Mark → Prop
  | tail {x : Option Char} {gap : List Mark} (hgap : IsGap gap) :
      Tidied offSemicolon offComma x gap gap
  | plain {x : Option Char} {gap marks marks' : List Mark} {m : Mark} (hgap : IsGap gap)
      (hard : isSpacing m.char = false) (hm : m.char ≠ ';')
      (dead : CommaSpacing.isLive offComma m = false)
      (later : Tidied offSemicolon offComma (some m.char) marks marks') :
      Tidied offSemicolon offComma x (gap ++ m :: marks) (gap ++ m :: marks')
  | comma {x : Option Char} {gap after marks marks' : List Mark} {m : Mark} (hgap : IsGap gap)
      (live : CommaSpacing.isLive offComma m = true) (hafter : IsGap after)
      (hard : ∀ c ∈ (chars marks).head?, isSpacing c = false)
      (later : Tidied offSemicolon offComma (some ',') marks marks') :
      Tidied offSemicolon offComma x (gap ++ m :: (after ++ marks))
        (gapBefore x gap ++ m :: (gapAfter m after marks ++ marks'))
  | stay {x : Option Char} {gap run marks marks' : List Mark} (hgap : IsGap gap)
      (hrun : TrailingSemicolon.IsRun run) (hnext : ∀ m ∈ marks.head?, m.char ≠ ';')
      (stays : ¬(TrailingSemicolon.isRestBlank (chars marks) ∧
        TrailingSemicolon.isLive offSemicolon run))
      (later : Tidied offSemicolon offComma (some ';') marks marks') :
      Tidied offSemicolon offComma x (gap ++ (run ++ marks)) (gap ++ (run ++ marks'))
  | go {x : Option Char} {gap run marks marks' : List Mark} (hgap : IsGap gap)
      (hrun : TrailingSemicolon.IsRun run) (hnext : ∀ m ∈ marks.head?, m.char ≠ ';')
      (ends : TrailingSemicolon.isRestBlank (chars marks) = true)
      (live : TrailingSemicolon.isLive offSemicolon run = true)
      (later : Tidied offSemicolon offComma (some ';') marks marks') :
      Tidied offSemicolon offComma x (gap ++ (run ++ marks)) (gap ++ marks')

namespace Tidied

variable {offSemicolon offComma : Nat → Bool} {x : Option Char} {marks marks' : List Mark}

theorem isRun_cons {m : Mark} {run : List Mark} (hm : m.char = ';') (hrun : ∀ d ∈ run, d.char = ';') :
    TrailingSemicolon.IsRun (m :: run) where
  nonempty := List.cons_ne_nil _ _
  semicolons := by
    intro d hd
    rcases List.mem_cons.1 hd with rfl | hd
    · exact hm
    · exact hrun d hd

/-- Every text can be tidied. -/
theorem exists_tidied (offSemicolon offComma : Nat → Bool) (x : Option Char) (marks : List Mark) :
    ∃ marks', Tidied offSemicolon offComma x marks marks' := by
  induction hlength : marks.length using Nat.strongRecOn generalizing x marks with
  | ind length ih =>
      obtain ⟨gap, rest, rfl, hgap, hrest⟩ := exists_span (fun m : Mark => isSpacing m.char) marks
      cases rest with
      | nil => exact ⟨gap ++ [], by simpa using .tail hgap⟩
      | cons m rest =>
          have hard := hrest m rfl
          by_cases hm : m.char = ';'
          · obtain ⟨run, marks, rfl, hrun, hmarks⟩ := exists_span (fun m : Mark => m.char == ';') rest
            have hnext : ∀ m ∈ marks.head?, m.char ≠ ';' := fun d hd => by simpa using hmarks d hd
            have hisRun := isRun_cons hm fun d hd => by simpa using hrun d hd
            obtain ⟨marks', later⟩ := ih marks.length (by simp at hlength; omega) (some ';') marks rfl
            by_cases hgoes : TrailingSemicolon.isRestBlank (chars marks) ∧
                TrailingSemicolon.isLive offSemicolon (m :: run)
            · exact ⟨_, .go hgap hisRun hnext hgoes.1 hgoes.2 later⟩
            · exact ⟨_, .stay hgap hisRun hnext hgoes later⟩
          · cases hlive : CommaSpacing.isLive offComma m with
            | false =>
                obtain ⟨marks', later⟩ :=
                  ih rest.length (by simp at hlength; omega) (some m.char) rest rfl
                exact ⟨_, .plain hgap hard hm hlive later⟩
            | true =>
                obtain ⟨after, marks, rfl, hafter, hmarks⟩ :=
                  exists_span (fun m : Mark => isSpacing m.char) rest
                obtain ⟨marks', later⟩ :=
                  ih marks.length (by simp at hlength; omega) (some ',') marks rfl
                refine ⟨_, .comma hgap hlive hafter ?_ later⟩
                intro c hc
                rw [chars, List.head?_map] at hc
                obtain ⟨d, hd, rfl⟩ := Option.map_eq_some_iff.1 hc
                exact hmarks d hd

theorem char_ne_of_isGap {gap : List Mark} (hgap : IsGap gap) : ∀ m ∈ gap, m.char ≠ ';' :=
  fun m hm => (CommaSpacing.char_ne_of_isSpacing (hgap m hm)).1

theorem dead_of_isRun {run : List Mark} (offComma : Nat → Bool) (hrun : TrailingSemicolon.IsRun run) :
    ∀ m ∈ run, CommaSpacing.isLive offComma m = false := by
  intro m hm
  rw [Bool.eq_false_iff]
  intro hlive
  cases (hrun.semicolons m hm).symm.trans (CommaSpacing.char_of_isLive hlive)

theorem count_newline_run {run : List Mark} (hrun : TrailingSemicolon.IsRun run) :
    (chars run).count '\n' = 0 := by
  rw [List.count_eq_zero]
  intro hmem
  obtain ⟨m, hm, hchar⟩ := List.mem_map.1 hmem
  cases (hrun.semicolons m hm).symm.trans hchar

/-- Behind a run of semicolons no spacing before a comma stays. -/
theorem behind_run {run : List Mark} (hrun : TrailingSemicolon.IsRun run) (before : List Char) :
    Behind (some ';') ((chars run).reverse ++ before) := by
  obtain ⟨front, m, rfl⟩ := List.eq_nil_or_concat run |>.resolve_left hrun.nonempty
  have hm : m.char = ';' := hrun.semicolons m (by simp)
  have hcons := Behind.cons (c := ';') rfl ((chars front).reverse ++ before)
  simpa [hm] using hcons

/-- The edits of both rules, in the order of their places, tidy the text. -/
theorem spliced (h : Tidied offSemicolon offComma x marks marks') {before : List Char}
    (hbehind : Behind x before) (offset : Nat) :
    ∃ corrections, Correction.Spliced offset corrections (chars marks) (chars marks') ∧
      corrections.Perm (TrailingSemicolon.editsAt offSemicolon offset marks ++
        CommaSpacing.edits offComma offset before marks) := by
  induction h generalizing before offset with
  | @tail x gap hgap =>
      refine ⟨[], .rest _ _, ?_⟩
      rw [← List.append_nil gap, TrailingSemicolon.editsAt_append (char_ne_of_isGap hgap),
        CommaSpacing.edits_gap offComma hgap]
      exact .refl _
  | @plain x gap marks marks' m hgap hard hm dead later ih =>
      obtain ⟨corrections, hspliced, hperm⟩ := ih (.cons hard ((chars gap).reverse ++ before))
        (offset + byteLength (chars gap) + m.char.utf8Size)
      have hpiece : ∀ d ∈ [m], d.char ≠ ';' := by simpa using hm
      have hkept : Correction.Spliced (offset + byteLength (chars gap) + byteLength [m.char])
          corrections (chars marks) (chars marks') := hspliced
      refine ⟨corrections, ?_, ?_⟩
      · rw [chars_append, chars_append]
        exact hkept.keep.keep
      · rw [TrailingSemicolon.editsAt_append (char_ne_of_isGap hgap),
          CommaSpacing.edits_gap offComma hgap, CommaSpacing.edits, dead, if_neg (by decide)]
        have hnone := TrailingSemicolon.editsAt_append hpiece offSemicolon
          (offset + byteLength (chars gap)) marks
        rw [List.singleton_append] at hnone
        rw [hnone]
        exact hperm
  | @comma x gap after marks marks' m hgap live hafter hard later ih =>
      obtain ⟨corrections, hspliced, hperm⟩ := ih (.comma hafter ((chars gap).reverse ++ before))
        (offset + byteLength (chars gap) + 1 + byteLength (chars after))
      have hm := CommaSpacing.char_of_isLive live
      have hpiece : ∀ d ∈ gap ++ m :: after, d.char ≠ ';' := by
        intro d hd
        rcases List.mem_append.1 hd with hd | hd
        · exact char_ne_of_isGap hgap d hd
        rcases List.mem_cons.1 hd with rfl | hd
        · simp [hm]
        · exact char_ne_of_isGap hafter d hd
      have hlength : offset + byteLength (chars (gap ++ m :: after)) =
          offset + byteLength (chars gap) + 1 + byteLength (chars after) := by
        have hsize : m.char.utf8Size = 1 := by rw [hm]; rfl
        simp only [chars_append, chars_cons, byteLength_append, byteLength_cons, hsize]
        omega
      have hsplit : gap ++ m :: (after ++ marks) = (gap ++ m :: after) ++ marks := by simp
      refine ⟨_, CommaSpacing.spliced_comma hbehind hgap hm hafter hard hspliced, ?_⟩
      rw [CommaSpacing.edits_comma hgap live hafter]
      rw [hsplit, TrailingSemicolon.editsAt_append hpiece, hlength]
      exact (hperm.append_left _).trans (List.perm_append_comm_assoc _ _ _)
  | @stay x gap run marks marks' hgap hrun hnext stays later ih =>
      obtain ⟨corrections, hspliced, hperm⟩ := ih (behind_run hrun ((chars gap).reverse ++ before))
        (offset + byteLength (chars gap) + byteLength (chars run))
      refine ⟨corrections, ?_, ?_⟩
      · simp only [chars_append]
        exact hspliced.keep.keep
      · rw [TrailingSemicolon.editsAt_append (char_ne_of_isGap hgap),
          TrailingSemicolon.editsAt_run hrun hnext, if_neg stays, CommaSpacing.edits_gap offComma hgap,
          CommaSpacing.edits_dead (dead_of_isRun offComma hrun)]
        exact hperm
  | @go x gap run marks marks' hgap hrun hnext ends live later ih =>
      obtain ⟨corrections, hspliced, hperm⟩ := ih (behind_run hrun ((chars gap).reverse ++ before))
        (offset + byteLength (chars gap) + byteLength (chars run))
      refine ⟨.deletion ⟨offset + byteLength (chars gap), byteLength (chars run)⟩ :: corrections, ?_, ?_⟩
      · have hnext := Correction.Spliced.next (chars gap) (chars run) "" hspliced
        simpa [Correction.deletion] using hnext
      · rw [TrailingSemicolon.editsAt_append (char_ne_of_isGap hgap),
          TrailingSemicolon.editsAt_run hrun hnext, if_pos ⟨ends, live⟩,
          CommaSpacing.edits_gap offComma hgap, CommaSpacing.edits_dead (dead_of_isRun offComma hrun)]
        exact hperm.cons _

/-- Around spacing and one more mark the text is retouched as it is tidied. -/
theorem retouched_plain {goes : List Mark → Bool} {gap : List Mark} {m : Mark} (hgap : IsGap gap)
    (hm : m.char ≠ ';') (hrest : Retouched goes false marks marks') :
    Retouched goes false (gap ++ m :: marks) (gap ++ m :: marks') := by
  have hsemicolon : m.isSemicolon = false := by simp [isSemicolon, hm]
  exact (hrest.keep (isGoing_of_not_isSemicolon hsemicolon _ _)).keepGap hgap

/-- Tidying takes away and puts in what retouching may. Where the text begins does not matter. -/
theorem retouched_of_picks {goes : List Mark → Bool} {offset : Nat}
    (h : Tidied offSemicolon offComma x marks marks') (hchain : marks.IsChain Shading.Borders)
    (hpicks : TrailingSemicolon.PicksRuns goes offSemicolon offset marks) :
    Retouched goes false marks marks' := by
  induction h generalizing offset with
  | @tail x gap hgap =>
      have hkeep : Retouched goes false (gap ++ []) (gap ++ []) := Retouched.nil.keepGap hgap
      rwa [List.append_nil] at hkeep
  | @plain x gap marks marks' m hgap hard hm dead later ih =>
      have hmark : ∀ d ∈ [m], d.char ≠ ';' := by simpa using hm
      have hbehind := hpicks.of_append (char_ne_of_isGap hgap)
      rw [← List.singleton_append] at hbehind
      exact retouched_plain hgap hm (ih (List.isChain_cons.1 hchain.right_of_append).2
        (hbehind.of_append hmark))
  | @comma x gap after marks marks' m hgap live hafter hard later ih =>
      have hmark : ∀ d ∈ [m], d.char ≠ ';' := by simp [CommaSpacing.char_of_isLive live]
      have hbehind := hpicks.of_append (char_ne_of_isGap hgap)
      rw [← List.singleton_append] at hbehind
      have hrest := ih (List.isChain_cons.1 hchain.right_of_append).2.right_of_append
        ((hbehind.of_append hmark).of_append (char_ne_of_isGap hafter))
      exact CommaSpacing.retouched_comma hchain hgap live hafter hrest
  | @stay x gap run marks marks' hgap hrun hnext stays later ih =>
      have hbehind := hpicks.of_append (char_ne_of_isGap hgap)
      have hrest := ih hchain.right_of_append.right_of_append (hbehind.of_run hrun hnext)
      refine (hrest.keepAll ?_).keepGap hgap
      intro front m back hsplit
      rw [isGoing, hbehind.run_eq hrun hnext hsplit, decide_eq_false stays, Bool.and_false]
  | @go x gap run marks marks' hgap hrun hnext ends live later ih =>
      have hbehind := hpicks.of_append (char_ne_of_isGap hgap)
      have hrest := ih hchain.right_of_append.right_of_append (hbehind.of_run hrun hnext)
      refine (hrest.removeAll (TrailingSemicolon.isSemicolon_of_isLive hrun live) ?_ ends).keepGap hgap
      intro front m back hsplit
      rw [hbehind.run_eq hrun hnext hsplit, decide_eq_true ⟨ends, live⟩]

/-- Tidying takes away and puts in what retouching may. The semicolons that go are those in the
edits. -/
theorem retouched (h : Tidied offSemicolon offComma x marks marks')
    (hchain : marks.IsChain Shading.Borders) :
    Retouched (TrailingSemicolon.goesIn (TrailingSemicolon.edits offSemicolon marks) marks) false marks
      marks' :=
  h.retouched_of_picks hchain (TrailingSemicolon.picks_goesIn _ marks)

/-- Tidying keeps the lines. -/
theorem linesFrom {line : Nat} (h : Tidied offSemicolon offComma x marks marks')
    (hlines : Shading.LinesFrom line marks) : Shading.LinesFrom line marks' := by
  induction h generalizing line with
  | tail => exact hlines
  | @plain x gap marks marks' m hgap hard hm dead later ih =>
      obtain ⟨hfront, hline, hrest⟩ := (CommaSpacing.linesFrom_gap hgap).1 hlines
      exact (CommaSpacing.linesFrom_gap hgap).2 ⟨hfront, hline, ih hrest⟩
  | @comma x gap after marks marks' m hgap live hafter hard later ih =>
      exact CommaSpacing.linesFrom_comma hgap live hafter hlines ih
  | @stay x gap run marks marks' hgap hrun hnext stays later ih =>
      obtain ⟨hfront, hrest⟩ := (CommaSpacing.linesFrom_gap hgap).1 hlines
      obtain ⟨hkept, hrest⟩ := Shading.LinesFrom.append_iff.1 hrest
      exact (CommaSpacing.linesFrom_gap hgap).2
        ⟨hfront, Shading.LinesFrom.append_iff.2 ⟨hkept, ih hrest⟩⟩
  | @go x gap run marks marks' hgap hrun hnext ends live later ih =>
      obtain ⟨hfront, hrest⟩ := (CommaSpacing.linesFrom_gap hgap).1 hlines
      obtain ⟨-, hrest⟩ := Shading.LinesFrom.append_iff.1 hrest
      rw [count_newline_run hrun, Nat.add_zero] at hrest
      exact (CommaSpacing.linesFrom_gap hgap).2 ⟨hfront, ih hrest⟩

end Tidied

end SourceLint
