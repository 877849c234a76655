import SourceLint.Proofs.Correction.Independence
import SourceLint.Proofs.Syntax.Shading
import SourceLint.Rules.TrailingSemicolon

/-!
# What the edits of semicolons amount to

The runs of semicolons at the ends of lines lie apart from each other, and each of them is a piece of
the text with nothing but semicolons in it.

## Implementation notes

`runsAt` finds the same runs on a text with marks and keeps the marks of each run. Whether a run gets
an edit is then a test on these marks.
-/

namespace SourceLint.TrailingSemicolon

open Mark

/-- The runs of semicolons at the ends of lines with their offsets, in a text that begins at an offset
right behind the semicolons of `run`. -/
def runsAt (offset : Nat) (run : List Mark) : List Mark → List (Nat × List Mark)
  | [] => if run = [] then [] else [(offset - run.length, run)]
  | m :: marks =>
    if m.char = ';' then runsAt (offset + 1) (run ++ [m]) marks
    else
      let later := runsAt (offset + m.char.utf8Size) [] marks
      if run ≠ [] ∧ isRestBlank (chars (m :: marks)) then (offset - run.length, run) :: later
      else later

/-- The span of a run at an offset. -/
def spanOf (run : Nat × List Mark) : Span := ⟨run.1, run.2.length⟩

/-- The marks are of semicolons, and there is one of them. -/
structure IsRun (run : List Mark) : Prop where
  nonempty : run ≠ []
  semicolons : ∀ m ∈ run, m.char = ';'

/-- The run may get an edit: no part of it lies in a comment or a string literal, and the rule is on
for its line. -/
def isLive (off : Nat → Bool) (run : List Mark) : Bool :=
  run.all (fun m => !m.shielded) && !run.head?.any fun m => off m.line

/-- The edits of the runs that may get one. -/
def edits (off : Nat → Bool) (marks : List Mark) : List Correction :=
  ((runsAt 0 [] marks).filter fun run => isLive off run.2).map fun run => .deletion (spanOf run)

theorem byteLength_run {run : List Mark} (h : ∀ m ∈ run, m.char = ';') :
    byteLength (chars run) = run.length := by
  induction run with
  | nil => rfl
  | cons m run ih =>
      have hm : m.char.utf8Size = 1 := by rw [h m List.mem_cons_self]; rfl
      rw [chars_cons, byteLength_cons, hm, ih fun d hd => h d (List.mem_cons_of_mem _ hd),
        List.length_cons, Nat.add_comm]

theorem runsFrom_eq (offset : Nat) (run marks : List Mark) :
    runsFrom offset run.length (chars marks) = (runsAt offset run marks).map spanOf := by
  induction marks generalizing offset run with
  | nil =>
      cases run with
      | nil => rfl
      | cons m run => rfl
  | cons m marks ih =>
      rw [chars_cons, runsFrom, runsAt]
      split
      · have hrest := ih (offset + 1) (run ++ [m])
        rw [List.length_append] at hrest
        exact hrest
      · rw [← chars_cons]
        have hrest := ih (offset + m.char.utf8Size) []
        rw [List.length_nil] at hrest
        simp only [hrest]
        cases run with
        | nil => simp
        | cons first run =>
            cases isRestBlank (chars (m :: marks)) with
            | true => simp [spanOf]
            | false => simp

/-- The run is a piece of the text at its offset, which is not before `least`. -/
def IsPiece (least : Nat) (marks : List Mark) (run : Nat × List Mark) : Prop :=
  ∃ before behind, marks = before ++ run.2 ++ behind ∧ run.1 = byteLength (chars before) ∧
    least ≤ run.1 ∧ IsRun run.2

variable {front run marks : List Mark} {r : Nat × List Mark}

/-- The run right before the rest of a text is a piece of the text. -/
theorem isPiece_run (hne : run ≠ []) (hrun : ∀ m ∈ run, m.char = ';') :
    IsPiece (byteLength (chars front)) (front ++ run ++ marks)
      (byteLength (chars (front ++ run)) - run.length, run) := by
  have hlength := byteLength_run hrun
  refine ⟨front, marks, rfl, ?_, ?_, hne, hrun⟩
  · simp only [chars_append, byteLength_append]
    omega
  · simp only [chars_append, byteLength_append]
    omega

theorem isPiece_of_mem_runsAt (hrun : ∀ m ∈ run, m.char = ';')
    (h : r ∈ runsAt (byteLength (chars (front ++ run))) run marks) :
    IsPiece (byteLength (chars front)) (front ++ run ++ marks) r := by
  induction marks generalizing front run with
  | nil =>
      rw [runsAt] at h
      split at h
      · cases h
      · rename_i hne
        rw [List.mem_singleton.1 h]
        exact isPiece_run hne hrun
  | cons m marks ih =>
      have hlater : r ∈ runsAt (byteLength (chars (front ++ run)) + m.char.utf8Size) [] marks →
          IsPiece (byteLength (chars front)) (front ++ run ++ m :: marks) r := by
        intro h
        have hoffset : byteLength (chars (front ++ run)) + m.char.utf8Size =
            byteLength (chars (front ++ run ++ [m] ++ [])) := by
          simp [Nat.add_assoc]
        rw [hoffset] at h
        obtain ⟨before, behind, hmarks, hlocation, hleast, hr⟩ := ih (by simp) h
        refine ⟨before, behind, by simpa using hmarks, hlocation, ?_, hr⟩
        simp only [chars_append, byteLength_append] at hleast
        omega
      rw [runsAt] at h
      split at h
      · rename_i hm
        have hmore : ∀ d ∈ run ++ [m], d.char = ';' := by
          intro d hd
          rcases List.mem_append.1 hd with hd | hd
          · exact hrun d hd
          · rw [List.mem_singleton.1 hd, hm]
        have hoffset : byteLength (chars (front ++ run)) + 1 =
            byteLength (chars (front ++ (run ++ [m]))) := by
          have hsize : Char.utf8Size ';' = 1 := rfl
          simp [hm, hsize, Nat.add_assoc]
        rw [hoffset] at h
        have hpiece := ih hmore h
        simpa using hpiece
      · simp only at h
        split at h
        · rename_i hends
          rcases List.mem_cons.1 h with rfl | h
          · exact isPiece_run hends.1 hrun
          · exact hlater h
        · exact hlater h

/-- A run of the text is a piece of it. -/
theorem isPiece_of_mem (h : r ∈ runsAt 0 [] marks) : IsPiece 0 marks r := by
  have hnone : ∀ m ∈ ([] : List Mark), m.char = ';' := by simp
  exact @isPiece_of_mem_runsAt [] [] marks r hnone h

/-- The runs do not meet, and none of them begins before the semicolons at hand. -/
theorem pairwise_runsAt {offset : Nat} (hle : run.length ≤ offset) :
    (runsAt offset run marks).Pairwise (fun a b => a.1 + a.2.length ≤ b.1) ∧
      ∀ r ∈ runsAt offset run marks, offset - run.length ≤ r.1 := by
  induction marks generalizing offset run with
  | nil =>
      rw [runsAt]
      split
      · exact ⟨.nil, by simp⟩
      · refine ⟨List.pairwise_singleton _ _, ?_⟩
        intro r hr
        obtain rfl := List.mem_singleton.1 hr
        exact Nat.le_refl _
  | cons m marks ih =>
      rw [runsAt]
      split
      · have hmore : (run ++ [m]).length ≤ offset + 1 := by
          rw [List.length_append, List.length_singleton]
          omega
        have hstart : offset + 1 - (run ++ [m]).length = offset - run.length := by
          rw [List.length_append, List.length_singleton]
          omega
        have hrest := ih hmore
        rwa [hstart] at hrest
      · obtain ⟨hpairwise, hbehind⟩ := @ih [] (offset + m.char.utf8Size) (Nat.zero_le _)
        rw [List.length_nil, Nat.sub_zero] at hbehind
        simp only
        split
        · refine ⟨List.pairwise_cons.2 ⟨fun r hr => ?_, hpairwise⟩, fun r hr => ?_⟩
          · have := hbehind r hr
            simp only
            omega
          · rcases List.mem_cons.1 hr with rfl | hr
            · exact Nat.le_refl _
            · have := hbehind r hr
              omega
        · refine ⟨hpairwise, ?_⟩
          intro r hr
          have := hbehind r hr
          omega

/-- The run may get an edit when its tokens are accepted and the rule is on for its line. -/
theorem isLive_eq {source : String} {placed : List PlacedLexeme} (h : Shading 0 "" 1 marks placed)
    (hsource : source.toList = chars marks) (off : Nat → Bool) (hr : r ∈ runsAt 0 [] marks) :
    ((TokenFilter.excluding [.comment, .string]).accepts
      ((TokenStream.ofList (Shading.tokens placed)).kindsOverlapping (spanOf r)) &&
        !off ((LineIndex.ofString source).lineOf r.1)) = isLive off r.2 := by
  obtain ⟨before, behind, hmarks, hlocation, -, hrun⟩ := isPiece_of_mem hr
  obtain ⟨m, rest, hcons⟩ := List.exists_cons_of_ne_nil hrun.nonempty
  have hpiece : Shading 0 "" 1 (before ++ r.2 ++ behind) placed := hmarks ▸ h
  have hspan : spanOf r = ⟨byteLength (chars before), byteLength (chars r.2)⟩ := by
    rw [spanOf, hlocation, byteLength_run hrun.semicolons]
  have hsplit : source.toList = chars before ++ chars (r.2 ++ behind) := by
    rw [hsource, hmarks, List.append_assoc, chars_append]
  have hline : m.line = 1 + (chars before).count '\n' := by
    rw [hcons, List.append_assoc, List.cons_append] at hpiece
    exact hpiece.linesFrom.line_eq
  rw [hspan, hpiece.accepts_eq hrun.nonempty, hlocation, LineIndex.lineOf_append hsplit, ← hline,
    isLive, hcons, List.head?_cons, Option.any_some]

/-- The edits that the rule asks for on the lines where it is not off are those of the marks. -/
theorem edits_eq {source : String} {placed : List PlacedLexeme} (h : Shading 0 "" 1 marks placed)
    (hsource : source.toList = chars marks) (off : Nat → Bool) :
    (((runs source.toList).filter fun run =>
      (TokenFilter.excluding [.comment, .string]).accepts
        ((TokenStream.ofList (Shading.tokens placed)).kindsOverlapping run)).map
      Correction.deletion).filter (fun e =>
        !off ((LineIndex.ofString source).lineOf e.span.location)) = edits off marks := by
  have hruns : runs source.toList = (runsAt 0 [] marks).map spanOf := by
    rw [hsource]
    exact runsFrom_eq 0 [] marks
  rw [hruns, List.filter_map, List.filter_map, List.filter_map, List.filter_filter, List.map_map, edits]
  refine congrArg (List.map _) (List.filter_congr ?_)
  intro r hr
  rw [← isLive_eq h hsource off hr, Bool.and_comm]
  rfl

/-- An edit removes a piece of semicolons. -/
theorem edits_pieces {off : Nat → Bool} {e : Correction} (he : e ∈ edits off marks) :
    (∃ piece, e.span.chars? (chars marks) = some piece ∧ piece ≠ [] ∧ ∀ c ∈ piece, c = ';') ∧
      e.replacement = "" := by
  obtain ⟨r, hr, rfl⟩ := List.mem_map.1 he
  obtain ⟨before, behind, rfl, hlocation, -, hrun⟩ := isPiece_of_mem (List.mem_filter.1 hr).1
  refine ⟨⟨chars r.2, ?_, ?_, ?_⟩, rfl⟩
  · rw [Span.chars?_eq_some_iff]
    exact ⟨chars before, chars behind, by simp, hlocation.symm, byteLength_run hrun.semicolons⟩
  · exact mt List.map_eq_nil_iff.1 hrun.nonempty
  · intro c hc
    obtain ⟨m, hm, rfl⟩ := List.mem_map.1 hc
    exact hrun.semicolons m hm

/-- The edits of semicolons are independent. -/
theorem edits_independent (off : Nat → Bool) (marks : List Mark) :
    Correction.Independent (chars marks) (edits off marks) where
  pieces := by
    intro e he
    obtain ⟨⟨piece, hpiece, hne, -⟩, -⟩ := edits_pieces he
    exact ⟨piece, hpiece, hne⟩
  apart := by
    have hle : ([] : List Mark).length ≤ 0 := Nat.le_refl _
    have hruns := (@pairwise_runsAt [] marks 0 hle).1
    rw [edits, List.pairwise_map]
    exact (hruns.filter _).imp Or.inl

/-- No run gets an edit when the rule is off everywhere. -/
theorem edits_off (marks : List Mark) : edits (fun _ => true) marks = [] := by
  have hdead : (runsAt 0 [] marks).filter (fun run => isLive (fun _ => true) run.2) = [] := by
    rw [List.filter_eq_nil_iff]
    intro r hr
    obtain ⟨before, behind, -, -, -, hrun⟩ := isPiece_of_mem hr
    obtain ⟨m, rest, hcons⟩ := List.exists_cons_of_ne_nil hrun.nonempty
    simp [isLive, hcons]
  rw [edits, hdead, List.map_nil]

end SourceLint.TrailingSemicolon
