import SourceLint.Proofs.Linter.Preservation

/-!
# Semicolons that come to the end of their line

The rule on semicolons looks at a text as it is. When a run at the end of a line goes, a semicolon before
it may come to the end of the line, and then the corrected text has a violation again. This is the only
way in which a text with all corrections of the rule made can have one.

## Implementation notes

`withoutRuns` makes all edits of the rule at once, by the recursion that finds the runs. What an edit
uncovers is asked of the old text alone.

## Main results

* `TrailingSemicolon.validate_apply_eq_nil_iff`: after one pass nothing is left to report exactly when no
  correction of the pass uncovers a semicolon.
* `TrailingSemicolon.validate_apply_uncovered`: a text on which a pass does not settle.
-/

namespace SourceLint.TrailingSemicolon

open Mark

/-! ### What an edit uncovers -/

/-- Without the piece under a span a text that begins at an offset would end its line, and with the piece
it does not. -/
def EndsBut (offset : Nat) (cs : List Char) (span : Span) : Prop :=
  isRestBlank cs = false ∧ ∃ gap piece back, cs = gap ++ (piece ++ back) ∧
    span = ⟨offset + byteLength gap, byteLength piece⟩ ∧ isRestBlank (gap ++ back) = true

/-- Behind a semicolon of a text that begins at an offset there is nothing before the end of the line but
spacing and the piece under a span. -/
def UncoversFrom (offset : Nat) (cs : List Char) (span : Span) : Prop :=
  ∃ front rest, cs = front ++ ';' :: rest ∧ EndsBut (offset + (byteLength front + 1)) rest span

/-- A semicolon that does not end its line does so once the piece under a span is gone. -/
def Uncovers (source : String) (span : Span) : Prop := UncoversFrom 0 source.toList span

/-- When it depends on the rest of the text whether a line ends behind a gap, the gap is of spacing, with a
carriage return at most. -/
theorem spacing_or_return {gap cs ds : List Char} (hends : isRestBlank (gap ++ cs) = true)
    (hgoes : isRestBlank (gap ++ ds) = false) : ∀ c ∈ gap, isSpacing c = true ∨ c = '\r' := by
  induction gap with
  | nil => simp
  | cons c gap ih =>
      rw [List.cons_append] at hends hgoes
      intro d hd
      cases hc : isSpacing c with
      | true =>
          rw [isRestBlank_spacing hc] at hends hgoes
          rcases List.mem_cons.1 hd with rfl | hd
          · exact .inl hc
          · exact ih hends hgoes d hd
      | false =>
          rw [isRestBlank_cons hc] at hends hgoes
          cases gap with
          | nil =>
              obtain rfl := List.mem_singleton.1 hd
              right
              by_contra hreturn
              simp [hreturn] at hends hgoes
              exact hgoes hends
          | cons e gap =>
              rw [List.cons_append, List.head?_cons] at hends hgoes
              cases hends.symm.trans hgoes

theorem not_mem_of_ends {gap cs ds : List Char} (hends : isRestBlank (gap ++ cs) = true)
    (hgoes : isRestBlank (gap ++ ds) = false) : ';' ∉ gap := by
  intro hmem
  rcases spacing_or_return hends hgoes _ hmem with hspacing | hreturn
  · cases hspacing
  · cases hreturn

theorem isRestBlank_semicolon (front cs ds : List Char) :
    isRestBlank (front ++ ';' :: cs) = isRestBlank (front ++ ';' :: ds) := by
  have hsemicolon : isSpacing ';' = false := rfl
  apply isRestBlank_append_congr
  · rw [isRestBlank_cons hsemicolon, isRestBlank_cons hsemicolon]
    rfl
  · rfl

/-! ### All edits at once -/

/-- A text without the runs that may get an edit, right behind the semicolons of `run`. -/
def withoutRuns (off : Nat → Bool) (run : List Mark) : List Mark → List Mark
  | [] => if isLive off run then [] else run
  | m :: marks =>
    if m.char = ';' then withoutRuns off (run ++ [m]) marks
    else
      (if isRestBlank (chars (m :: marks)) ∧ isLive off run then [] else run) ++
        m :: withoutRuns off [] marks

section Edits

variable {off : Nat → Bool} {piece run rest marks : List Mark}

theorem withoutRuns_append (hpiece : ∀ m ∈ piece, m.char ≠ ';') (marks : List Mark) :
    withoutRuns off [] (piece ++ marks) = piece ++ withoutRuns off [] marks := by
  induction piece with
  | nil => rfl
  | cons m piece ih =>
      rw [List.cons_append, withoutRuns, if_neg (hpiece m List.mem_cons_self), ite_self,
        ih fun d hd => hpiece d (List.mem_cons_of_mem _ hd)]
      rfl

theorem withoutRuns_nil : withoutRuns off [] [] = [] := by
  rw [withoutRuns, ite_self]

theorem withoutRuns_plain (hpiece : ∀ m ∈ piece, m.char ≠ ';') :
    withoutRuns off [] piece = piece := by
  have happend := @withoutRuns_append off piece hpiece []
  rwa [List.append_nil, withoutRuns_nil, List.append_nil] at happend

theorem withoutRuns_semicolons (hrun : ∀ m ∈ run, m.char = ';') (front : List Mark) :
    withoutRuns off front (run ++ marks) = withoutRuns off (front ++ run) marks := by
  induction run generalizing front with
  | nil => simp
  | cons m run ih =>
      rw [List.cons_append, withoutRuns, if_pos (hrun m List.mem_cons_self),
        ih fun d hd => hrun d (List.mem_cons_of_mem _ hd), List.append_cons front m run]

/-- A run goes when it ends its line and may get an edit. -/
theorem withoutRuns_run (hrun : IsRun run) (hnext : ∀ m ∈ rest.head?, m.char ≠ ';') :
    withoutRuns off [] (run ++ rest) =
      (if isRestBlank (chars rest) ∧ isLive off run then [] else run) ++ withoutRuns off [] rest := by
  rw [withoutRuns_semicolons hrun.semicolons, List.nil_append]
  cases rest with
  | nil => simp [withoutRuns, isRestBlank]
  | cons m rest =>
      rw [withoutRuns, withoutRuns, if_neg (hnext m rfl), if_neg (hnext m rfl), ite_self]
      rfl

theorem head?_withoutRuns (hnext : ∀ m ∈ marks.head?, m.char ≠ ';') :
    (withoutRuns off [] marks).head? = marks.head? := by
  cases marks with
  | nil => rw [withoutRuns_nil]
  | cons m marks =>
      have hm : ∀ d ∈ [m], d.char ≠ ';' := by simpa using hnext m rfl
      rw [← List.singleton_append, withoutRuns_append hm]
      rfl

/-- A text without semicolons, or a piece without them, a run and the rest of the text. -/
theorem exists_first_run (marks : List Mark) :
    (∀ m ∈ marks, m.char ≠ ';') ∨ ∃ piece run rest, marks = piece ++ (run ++ rest) ∧
      (∀ m ∈ piece, m.char ≠ ';') ∧ IsRun run ∧ ∀ m ∈ rest.head?, m.char ≠ ';' := by
  obtain ⟨piece, behind, rfl, hpiece, hbehind⟩ := exists_span (fun m : Mark => m.char != ';') marks
  have hplain : ∀ m ∈ piece, m.char ≠ ';' := fun m hm => by simpa using hpiece m hm
  cases behind with
  | nil => exact .inl (by simpa using hplain)
  | cons m behind =>
      obtain ⟨run, rest, rfl, hrun, hrest⟩ := exists_span (fun m : Mark => m.char == ';') behind
      have hm : m.char = ';' := by simpa using hbehind m rfl
      exact .inr ⟨piece, m :: run, rest, by simp, hplain,
        Tidied.isRun_cons hm fun d hd => by simpa using hrun d hd,
        fun d hd => by simpa using hrest d hd⟩

/-- Without the runs a text is tidied, when no comma may get an edit. -/
theorem tidied_withoutRuns (off : Nat → Bool) (x : Option Char) (marks : List Mark) :
    Tidied off (fun _ => true) x marks (withoutRuns off [] marks) := by
  induction hlength : marks.length using Nat.strongRecOn generalizing x marks with
  | ind length ih =>
      obtain ⟨gap, rest, rfl, hgap, hrest⟩ := exists_span (fun m : Mark => isSpacing m.char) marks
      have hgap : CommaSpacing.IsGap gap := hgap
      have hplain := Tidied.char_ne_of_isGap hgap
      cases rest with
      | nil =>
          rw [List.append_nil, withoutRuns_plain hplain]
          exact .tail hgap
      | cons m rest =>
          rw [withoutRuns_append hplain]
          by_cases hm : m.char = ';'
          · obtain ⟨run, marks, rfl, hrun, hmarks⟩ := exists_span (fun m : Mark => m.char == ';') rest
            have hnext : ∀ m ∈ marks.head?, m.char ≠ ';' := fun d hd => by simpa using hmarks d hd
            have hisRun := Tidied.isRun_cons hm fun d hd => by simpa using hrun d hd
            have later := ih marks.length (by simp at hlength; omega) (some ';') marks rfl
            rw [← List.cons_append, withoutRuns_run hisRun hnext]
            split
            · rename_i hgoes
              exact .go hgap hisRun hnext hgoes.1 hgoes.2 later
            · rename_i hstays
              exact .stay hgap hisRun hnext hstays later
          · have later := ih rest.length (by simp at hlength; omega) (some m.char) rest rfl
            have hsingle : ∀ d ∈ [m], d.char ≠ ';' := by simpa using hm
            rw [← List.singleton_append, withoutRuns_append hsingle]
            exact .plain hgap (hrest m rfl) hm (by simp [CommaSpacing.isLive]) later

/-- Where a line ends, it still does. -/
theorem isRestBlank_withoutRuns (h : isRestBlank (chars marks) = true) :
    isRestBlank (chars (withoutRuns off [] marks)) = true := by
  induction marks with
  | nil => rw [withoutRuns_nil]; rfl
  | cons m marks ih =>
      have hm : m.char ≠ ';' := by
        intro hm
        rw [chars_cons, hm, isRestBlank_cons rfl] at h
        cases h
      have hsingle : ∀ d ∈ [m], d.char ≠ ';' := by simpa using hm
      rw [← List.singleton_append, withoutRuns_append hsingle, List.singleton_append]
      rw [chars_cons] at h ⊢
      cases hspacing : isSpacing m.char with
      | true =>
          rw [isRestBlank_spacing hspacing] at h ⊢
          exact ih h
      | false =>
          rw [isRestBlank_cons hspacing, Bool.or_eq_true, Bool.and_eq_true] at h ⊢
          refine h.imp_right fun ⟨hreturn, hnewline⟩ => ⟨hreturn, ?_⟩
          have hnext : ∀ d ∈ marks.head?, d.char ≠ ';' := by
            intro d hd hsemicolon
            rw [chars, List.head?_map, hd, Option.map_some, hsemicolon] at hnewline
            cases hnewline
          rwa [chars, List.head?_map, head?_withoutRuns hnext, ← List.head?_map]

/-- The text between a gap and a run that goes may just as well be tidied. -/
theorem isRestBlank_gap (hnext : ∀ m ∈ rest.head?, m.char ≠ ';')
    (hends : isRestBlank (chars rest) = true) (gap : List Mark) :
    isRestBlank (chars (gap ++ withoutRuns off [] rest)) = isRestBlank (chars (gap ++ rest)) := by
  rw [chars_append, chars_append]
  refine isRestBlank_append_congr ?_ ?_ (chars gap)
  · rw [hends, isRestBlank_withoutRuns hends]
  · rw [chars, List.head?_map, head?_withoutRuns hnext, ← List.head?_map, chars]

/-! ### What the edits uncover -/

/-- Without its first run, which goes, a text would end its line, and with the run it does not. -/
structure EndsButRun (off : Nat → Bool) (gap run rest : List Mark) : Prop where
  isRun : IsRun run
  next : ∀ m ∈ rest.head?, m.char ≠ ';'
  ends : isRestBlank (chars rest) = true
  live : isLive off run = true
  without : isRestBlank (chars (gap ++ rest)) = true
  within : isRestBlank (chars (gap ++ (run ++ rest))) = false

namespace EndsButRun

variable {gap : List Mark}

theorem spacing_or_return (h : EndsButRun off gap run rest) :
    ∀ m ∈ gap, isSpacing m.char = true ∨ m.char = '\r' := by
  have hends := h.without
  have hgoes := h.within
  rw [chars_append] at hends hgoes
  intro m hm
  exact TrailingSemicolon.spacing_or_return hends hgoes m.char (List.mem_map_of_mem hm)

theorem plain (h : EndsButRun off gap run rest) : ∀ m ∈ gap, m.char ≠ ';' := by
  intro m hm hsemicolon
  rcases h.spacing_or_return m hm with hspacing | hreturn
  · rw [hsemicolon] at hspacing
    cases hspacing
  · cases hsemicolon.symm.trans hreturn

end EndsButRun

/-- Some edit is all that keeps a text from ending its line if and only if the text ends its line with all
edits made and does not without them. -/
theorem exists_endsButRun_iff :
    (∃ gap run rest, marks = gap ++ (run ++ rest) ∧ EndsButRun off gap run rest) ↔
      isRestBlank (chars marks) = false ∧ isRestBlank (chars (withoutRuns off [] marks)) = true := by
  constructor
  · rintro ⟨gap, run, rest, rfl, h⟩
    refine ⟨h.within, ?_⟩
    rw [withoutRuns_append h.plain, withoutRuns_run h.isRun h.next, if_pos ⟨h.ends, h.live⟩,
      List.nil_append, isRestBlank_gap h.next h.ends, h.without]
  · rintro ⟨hwithin, hwithout⟩
    obtain hplain | ⟨gap, run, rest, rfl, hgap, hrun, hnext⟩ := exists_first_run marks
    · rw [withoutRuns_plain hplain, hwithin] at hwithout
      cases hwithout
    rw [withoutRuns_append hgap, withoutRuns_run hrun hnext] at hwithout
    split at hwithout
    · rename_i hgoes
      rw [List.nil_append, isRestBlank_gap hnext hgoes.1] at hwithout
      exact ⟨gap, run, rest, rfl, hrun, hnext, hgoes.1, hgoes.2, hwithout, hwithin⟩
    · -- the run stays, and what stands behind it does not matter
      obtain ⟨m, more, rfl⟩ := List.exists_cons_of_ne_nil hrun.nonempty
      have hm : m.char = ';' := hrun.semicolons m List.mem_cons_self
      simp only [List.cons_append, chars_append, chars_cons, hm] at hwithin hwithout
      rw [isRestBlank_semicolon _ _ (chars more ++ chars rest), hwithin] at hwithout
      cases hwithout

/-- The edits of a text up to the end of its first run. -/
theorem mem_editsAt_first_run {offset : Nat} {e : Correction} (hpiece : ∀ m ∈ piece, m.char ≠ ';')
    (hrun : IsRun run) (hnext : ∀ m ∈ rest.head?, m.char ≠ ';') :
    e ∈ editsAt off offset (piece ++ (run ++ rest)) ↔
      (isRestBlank (chars rest) ∧ isLive off run) ∧
        e = .deletion ⟨offset + byteLength (chars piece), byteLength (chars run)⟩ ∨
      e ∈ editsAt off (offset + byteLength (chars piece) + byteLength (chars run)) rest := by
  rw [editsAt_append hpiece, editsAt_run hrun hnext, List.mem_append]
  split
  · rename_i hgoes
    simp [hgoes]
  · rename_i hstays
    simp [hstays]

theorem editsAt_plain (hplain : ∀ m ∈ marks, m.char ≠ ';') (offset : Nat) :
    editsAt off offset marks = [] := by
  have happend := @editsAt_append marks hplain off offset []
  rw [List.append_nil] at happend
  rw [happend]
  rfl

/-- When an edit is all that keeps a text from ending its line, it is that of the first run. -/
theorem exists_endsBut_iff {offset : Nat} :
    (∃ e ∈ editsAt off offset marks, EndsBut offset (chars marks) e.span) ↔
      ∃ gap run rest, marks = gap ++ (run ++ rest) ∧ EndsButRun off gap run rest := by
  constructor
  · rintro ⟨e, he, hwithin, gap, piece, back, hsplit, hspan, hwithout⟩
    have hgap : ';' ∉ gap := not_mem_of_ends hwithout (hsplit ▸ hwithin)
    obtain hplain | ⟨front, run, rest, rfl, hfront, hrun, hnext⟩ := exists_first_run marks
    · rw [editsAt_plain hplain] at he
      cases he
    rw [chars_append, chars_append] at hsplit
    rcases (mem_editsAt_first_run hfront hrun hnext).1 he with ⟨hgoes, rfl⟩ | he
    · obtain ⟨hlocation, hlength⟩ := Span.mk.inj hspan
      obtain ⟨rfl, hbehind⟩ := append_inj_of_byteLength_eq hsplit (by omega)
      obtain ⟨rfl, rfl⟩ := append_inj_of_byteLength_eq hbehind hlength
      rw [← chars_append] at hwithout
      exact ⟨front, run, rest, rfl, hrun, hnext, hgoes.1, hgoes.2, hwithout, hwithin⟩
    · -- the gap before a later edit holds the first run
      have hle := le_location_of_mem_editsAt he
      obtain ⟨m, more, rfl⟩ := List.exists_cons_of_ne_nil hrun.nonempty
      have hm : m.char = ';' := hrun.semicolons m List.mem_cons_self
      rw [hspan] at hle
      rw [← List.append_assoc] at hsplit
      obtain ⟨between, rfl, -⟩ := exists_append_of_byteLength_le hsplit
        (by rw [byteLength_append]; simp only at hle; omega)
      simp [hm] at hgap
  · rintro ⟨gap, run, rest, rfl, h⟩
    refine ⟨.deletion ⟨offset + byteLength (chars gap), byteLength (chars run)⟩, ?_, h.within,
      chars gap, chars run, chars rest, by simp, rfl, ?_⟩
    · rw [editsAt_append h.plain, editsAt_run h.isRun h.next, if_pos ⟨h.ends, h.live⟩]
      exact List.mem_append_left _ List.mem_cons_self
    · rw [← chars_append]
      exact h.without

/-- No semicolon stands in a piece without semicolons. -/
theorem le_of_semicolon {front tail cs : List Char} (hpiece : ∀ m ∈ piece, m.char ≠ ';')
    (h : chars piece ++ cs = front ++ ';' :: tail) : byteLength (chars piece) ≤ byteLength front := by
  by_contra hlt
  have hsize : byteLength (front ++ [';']) = byteLength front + 1 := by
    rw [byteLength_append]
    rfl
  rw [List.append_cons] at h
  obtain ⟨more, hmore, -⟩ := exists_append_of_byteLength_le h.symm (by omega)
  have hmem : ';' ∈ chars piece := by simp [hmore]
  obtain ⟨m, hm, hchar⟩ := List.mem_map.1 hmem
  exact hpiece m hm hchar

/-- The first run does not uncover anything. -/
theorem lt_of_uncoversFrom {offset : Nat} {cs : List Char} {span : Span}
    (hpiece : ∀ m ∈ piece, m.char ≠ ';') (h : UncoversFrom offset (chars piece ++ cs) span) :
    offset + byteLength (chars piece) < span.location := by
  obtain ⟨front, tail, hsplit, -, gap, old, back, -, rfl, -⟩ := h
  have hle := le_of_semicolon hpiece hsplit
  simp only
  omega

/-- A semicolon that an edit behind the first run uncovers is the last one of this run, or stands behind
it. -/
theorem uncoversFrom_first_run {offset : Nat} {span : Span} (hpiece : ∀ m ∈ piece, m.char ≠ ';')
    (hrun : IsRun run)
    (hle : offset + byteLength (chars piece) + byteLength (chars run) ≤ span.location) :
    UncoversFrom offset (chars (piece ++ (run ++ rest))) span ↔
      EndsBut (offset + byteLength (chars piece) + byteLength (chars run)) (chars rest) span ∨
      UncoversFrom (offset + byteLength (chars piece) + byteLength (chars run)) (chars rest) span := by
  constructor
  · rintro ⟨front, tail, hsplit, hwithin, gap, old, back, htail, hspan, hwithout⟩
    have hgap : ';' ∉ gap := not_mem_of_ends hwithout (htail ▸ hwithin)
    have hlocation : span.location = offset + (byteLength front + 1) + byteLength gap := by rw [hspan]
    rw [chars_append, chars_append, ← List.append_assoc] at hsplit
    rcases Nat.lt_or_ge (byteLength front) (byteLength (chars piece ++ chars run)) with hlt | hge
    · have hsemicolon : byteLength (front ++ [';']) = byteLength front + 1 := by
        rw [byteLength_append]
        rfl
      rw [List.append_cons] at hsplit
      obtain ⟨between, hparts, rfl⟩ := exists_append_of_byteLength_le hsplit.symm (by omega)
      have hplace := le_of_semicolon hpiece (hparts.trans (List.append_cons _ _ _).symm)
      obtain ⟨inside, -, hbehind⟩ := exists_append_of_byteLength_le hparts (by omega)
      have hlength := congrArg byteLength hparts
      rw [byteLength_append, byteLength_append _ between] at hlength
      cases between with
      | nil =>
          have hoffset : offset + (byteLength front + 1) =
              offset + byteLength (chars piece) + byteLength (chars run) := by
            rw [byteLength_nil] at hlength
            omega
          rw [hoffset] at hspan
          exact .inl ⟨hwithin, gap, old, back, htail, hspan, hwithout⟩
      | cons c more =>
          -- the semicolon is not the last one of the run, so the next one stands in the gap
          obtain ⟨far, rfl, -⟩ := exists_append_of_byteLength_le htail (by omega)
          have hmem : c ∈ chars run := by simp [hbehind]
          obtain ⟨m, hm, rfl⟩ := List.mem_map.1 hmem
          simp [hrun.semicolons m hm] at hgap
    · obtain ⟨between, rfl, hrest⟩ := exists_append_of_byteLength_le hsplit hge
      refine .inr ⟨between, tail, hrest, hwithin, gap, old, back, htail, ?_, hwithout⟩
      rw [hspan]
      simp only [byteLength_append, Span.mk.injEq, and_true]
      omega
  · rintro (hends | ⟨front, tail, hrest, hends⟩)
    · obtain ⟨front, m, rfl⟩ := List.eq_nil_or_concat run |>.resolve_left hrun.nonempty
      have hm : m.char = ';' := hrun.semicolons m (by simp)
      refine ⟨chars (piece ++ front), chars rest, by simp [hm], ?_⟩
      have hsize : m.char.utf8Size = 1 := by rw [hm]; rfl
      simpa [hsize, Nat.add_assoc] using hends
    · refine ⟨chars piece ++ (chars run ++ front), tail, by simp [hrest], ?_⟩
      simpa [Nat.add_assoc] using hends

end Edits

/-! ### Whether anything is left -/

section Shielded

variable {gap run rest marks : List Mark}

/-- The rule is on everywhere. -/
def neverOff : Nat → Bool := fun _ => false

theorem isLive_neverOff : isLive neverOff run = run.all fun m => !m.shielded := by
  cases run with
  | nil => rfl
  | cons m run => simp [isLive, neverOff]

/-- Semicolons before a gap and a run that goes are not shielded. -/
theorem isLive_of_endsButRun {front : List Mark} (hfront : IsRun front)
    (h : EndsButRun neverOff gap run rest)
    (hchain : (front ++ (gap ++ (run ++ rest))).IsChain Shading.Borders) :
    isLive neverOff front = true := by
  obtain ⟨m, more, rfl⟩ := List.exists_cons_of_ne_nil h.isRun.nonempty
  have hm : m.char = ';' := h.isRun.semicolons m List.mem_cons_self
  have hlive := h.live
  rw [isLive_neverOff, List.all_cons, Bool.and_eq_true, Bool.not_eq_true'] at hlive
  rw [← List.append_assoc, List.cons_append] at hchain
  have hunshielded := Shading.unshielded_before hchain hlive.1 (by simp [hm]) fun d hd => ?_
  · rw [isLive_neverOff, List.all_eq_true]
    intro d hd
    simp [hunshielded d (List.mem_append_left _ hd)]
  · rcases List.mem_append.1 hd with hd | hd
    · rw [hfront.semicolons d hd]
      exact ⟨rfl, by decide⟩
    · rcases h.spacing_or_return d hd with hspacing | hreturn
      · exact ⟨Lexeme.isSeparator_of_isSpacing hspacing, (CommaSpacing.char_ne_of_isSpacing hspacing).2⟩
      · rw [hreturn]
        exact ⟨rfl, by decide⟩

/-- With all edits made there is an edit again if and only if one of them uncovers a semicolon. -/
theorem editsAt_withoutRuns_iff (hchain : marks.IsChain Shading.Borders) (offset offset' : Nat) :
    editsAt neverOff offset' (withoutRuns neverOff [] marks) ≠ [] ↔
      ∃ e ∈ editsAt neverOff offset marks, UncoversFrom offset (chars marks) e.span := by
  induction hlength : marks.length using Nat.strongRecOn generalizing offset offset' marks with
  | ind length ih =>
      obtain hplain | ⟨piece, run, rest, rfl, hpiece, hrun, hnext⟩ := exists_first_run marks
      · rw [withoutRuns_plain hplain, editsAt_plain hplain, editsAt_plain hplain]
        simp
      have hlater := (List.isChain_append.1 (List.isChain_append.1 hchain).2.1).2.1
      let behind := offset + byteLength (chars piece) + byteLength (chars run)
      have hparts : (∃ e ∈ editsAt neverOff offset (piece ++ (run ++ rest)),
          UncoversFrom offset (chars (piece ++ (run ++ rest))) e.span) ↔
          (isRestBlank (chars rest) = false ∧
            isRestBlank (chars (withoutRuns neverOff [] rest)) = true) ∨
          ∃ e ∈ editsAt neverOff behind rest, UncoversFrom behind (chars rest) e.span := by
        rw [← exists_endsButRun_iff, ← @exists_endsBut_iff _ _ behind, ← exists_or]
        refine exists_congr fun e => ?_
        rw [mem_editsAt_first_run hpiece hrun hnext, ← and_or_left]
        constructor
        · rintro ⟨⟨-, rfl⟩ | he, huncovers⟩
          · rw [chars_append] at huncovers
            exact absurd (lt_of_uncoversFrom hpiece huncovers) (Nat.lt_irrefl _)
          · exact ⟨he, (uncoversFrom_first_run hpiece hrun (le_location_of_mem_editsAt he)).1 huncovers⟩
        · rintro ⟨he, huncovers⟩
          exact ⟨.inr he, (uncoversFrom_first_run hpiece hrun (le_location_of_mem_editsAt he)).2 huncovers⟩
      have hrest := fun offset' => ih rest.length (by
        have := List.length_pos_of_ne_nil hrun.nonempty
        simp at hlength
        omega) hlater behind offset' rfl
      rw [hparts, withoutRuns_append hpiece, withoutRuns_run hrun hnext, editsAt_append hpiece]
      split
      · rename_i hgoes
        rw [List.nil_append, hrest, hgoes.1]
        simp
      · rename_i hstays
        have hnext' : ∀ m ∈ (withoutRuns neverOff [] rest).head?, m.char ≠ ';' := by
          rwa [head?_withoutRuns hnext]
        rw [editsAt_run hrun hnext', ne_eq, List.append_eq_nil_iff, not_and_or, ← ne_eq (editsAt _ _ _),
          hrest]
        refine or_congr_left ?_
        rw [ite_eq_right_iff, not_forall]
        constructor
        · rintro ⟨⟨hwithout, hlive⟩, -⟩
          refine ⟨?_, hwithout⟩
          rw [Bool.eq_false_iff]
          exact fun hends => hstays ⟨hends, hlive⟩
        · intro hends
          obtain ⟨gap, later, more, rfl, h⟩ := exists_endsButRun_iff.2 hends
          have hlive := isLive_of_endsButRun hrun h (List.isChain_append.1 hchain).2.1
          exact ⟨⟨hends.2, hlive⟩, List.cons_ne_nil _ _⟩

end Shielded

section Passes

variable (options : SeverityOptions) {source content : String} {snapshot snapshot' : Snapshot}
  {marks : List Mark} {placed : List PlacedLexeme}

/-- The corrections of the rule are the edits of the marks. -/
theorem filterMap_proposal?_validate (h : Shading 0 "" 1 marks placed)
    (hsource : source.toList = chars marks) (hsnapshot : Snapshot.ofSource source = .ok snapshot) :
    ((rule options).validate { source := source, snapshot := snapshot }).filterMap
      (Corrector.proposal? {}) = (editsAt neverOff 0 marks).map fun e => ⟨identifier, e⟩ := by
  let context : Context := { source := source, snapshot := snapshot }
  have htokens := h.tokens_of_ofSource hsource hsnapshot
  calc
    ((rule options).validate context).filterMap (Corrector.proposal? {})
        = (rule options).fileProposals {} (fun _ => neverOff) context :=
          Rule.filterMap_proposal?_validate rfl {} context
    _ = (editsAt neverOff 0 marks).map fun e => ⟨identifier, e⟩ :=
          @fileProposals_rule context marks placed h hsource htokens rfl {} (fun _ => neverOff) options

theorem filterMap_correction_validate (h : Shading 0 "" 1 marks placed)
    (hsource : source.toList = chars marks) (hsnapshot : Snapshot.ofSource source = .ok snapshot) :
    ((rule options).validate { source := source, snapshot := snapshot }).filterMap
      Violation.correction = editsAt neverOff 0 marks := by
  rw [← Linter.map_proposal?, filterMap_proposal?_validate options h hsource hsnapshot, List.map_map]
  exact List.map_id _

/-- Every violation of the rule has a correction. -/
theorem validate_eq_nil_iff (context : Context) :
    (rule options).validate context = [] ↔
      ((rule options).validate context).filterMap Violation.correction = [] := by
  rw [List.filterMap_eq_nil_iff, List.eq_nil_iff_forall_not_mem]
  refine forall_congr' fun v => forall_congr' fun hv => ?_
  obtain ⟨run, -, rfl⟩ := List.mem_map.1 hv
  simp [violation]

/-- The corrected text is cut into lexemes, and its marks are those of the text without the runs that
go. -/
theorem shading_apply (h : Shading 0 "" 1 marks placed) (hsource : source.toList = chars marks)
    (hsnapshot : Snapshot.ofSource source = .ok snapshot) :
    (Corrector.apply {} source ((rule options).validate
        { source := source, snapshot := snapshot })).content.toList =
      chars (withoutRuns neverOff [] marks) ∧
    ∃ placed', Shading 0 "" 1 (withoutRuns neverOff [] marks) placed' := by
  have htidied := tidied_withoutRuns neverOff none marks
  have hproposals := filterMap_proposal?_validate options h hsource hsnapshot
  constructor
  · refine Corrector.content_of_tidied hsource identifier identifier ?_ htidied
    rw [hproposals, CommaSpacing.edits_off, List.map_nil, List.append_nil]
    rfl
  · obtain ⟨placed', hshading, -⟩ := Shading.cutInto_of_retouched h
      (htidied.retouched h.isChain_borders) (htidied.linesFrom h.linesFrom) 0 ""
    exact ⟨placed', hshading⟩

/-- After a pass that makes all corrections of the rule, the rule has nothing to report on the corrected
text exactly when no correction of the pass uncovers a semicolon. -/
theorem validate_apply_eq_nil_iff (hsnapshot : Snapshot.ofSource source = .ok snapshot)
    (hcontent : (Corrector.apply {} source ((rule options).validate
      { source := source, snapshot := snapshot })).content = content)
    (hsnapshot' : Snapshot.ofSource content = .ok snapshot') :
    (rule options).validate { source := content, snapshot := snapshot' } = [] ↔
      ∀ v ∈ (rule options).validate { source := source, snapshot := snapshot },
        ∀ e, v.correction = some e → ¬Uncovers source e.span := by
  obtain ⟨marks, placed, hshading, hsource⟩ := Snapshot.exists_shading hsnapshot
  obtain ⟨hchars, placed', hshading'⟩ := shading_apply options hshading hsource hsnapshot
  rw [hcontent] at hchars
  rw [validate_eq_nil_iff, filterMap_correction_validate options hshading' hchars hsnapshot',
    ← not_ne_iff, editsAt_withoutRuns_iff hshading.isChain_borders 0, not_exists,
    ← filterMap_correction_validate options hshading hsource hsnapshot, ← hsource]
  constructor
  · intro hnone v hv e he huncovers
    exact hnone e ⟨List.mem_filterMap.2 ⟨v, hv, he⟩, huncovers⟩
  · rintro hnone e ⟨he, huncovers⟩
    obtain ⟨v, hv, hcorrection⟩ := List.mem_filterMap.1 he
    exact hnone v hv e hcorrection huncovers

/-- The last semicolon of a line goes, and the one before it comes to the end of the line. -/
theorem validate_apply_uncovered :
    ∃ snapshot snapshot', Snapshot.ofSource "let a = 0; ;\n" = .ok snapshot ∧
      (Corrector.apply {} "let a = 0; ;\n" ((rule {}).validate
        { source := "let a = 0; ;\n", snapshot := snapshot })).content = "let a = 0; \n" ∧
      Snapshot.ofSource "let a = 0; \n" = .ok snapshot' ∧
      (rule {}).validate { source := "let a = 0; \n", snapshot := snapshot' } =
        [violation .warning ⟨9, 1⟩] := by
  have hrun : ((Snapshot.ofSource "let a = 0; ;\n").toOption.any fun snapshot =>
      (Snapshot.ofSource "let a = 0; \n").toOption.any fun snapshot' =>
        (Corrector.apply {} "let a = 0; ;\n" ((rule {}).validate
          { source := "let a = 0; ;\n", snapshot := snapshot })).content == "let a = 0; \n" &&
        (rule {}).validate { source := "let a = 0; \n", snapshot := snapshot' } ==
          [violation .warning ⟨9, 1⟩]) = true := by decide +kernel
  obtain ⟨snapshot, hsnapshot, hrun⟩ := exists_of_toOption_any hrun
  obtain ⟨snapshot', hsnapshot', hrun⟩ := exists_of_toOption_any hrun
  rw [Bool.and_eq_true] at hrun
  exact ⟨snapshot, snapshot', hsnapshot, eq_of_beq hrun.1, hsnapshot', eq_of_beq hrun.2⟩

end Passes

end SourceLint.TrailingSemicolon
