import SourceLint.Proofs.Rules.LineLength
import SourceLint.Proofs.Rules.Places
import SourceLint.Proofs.Syntax.Meeting

/-!
# Lines of comments

On demand the rule on the length of lines passes over comments. It asks for the tokens that share a byte with a line,
and punctuation gives no token. So it passes over each line that has a part of a comment on it and else nothing but
punctuation and blanks, and over no other line.

## Main results

* `LineLength.validate_eq`: which lines are reported, told from the lexemes.
* `LineLength.violation_mem_of_byte`: a long line is reported when a byte on it is neither a blank nor in a comment
  nor in punctuation.
* `LineLength.violation_mem_of_unpunctuated`: on a line without punctuation it is enough that the byte is neither a
  blank nor in a comment.
* `LineLength.validate_bracket`: on a line with punctuation that is not enough.
-/

namespace SourceLint.LineLength

/-- A part of a comment is under the span, and else nothing but punctuation and blanks. -/
structure IsCommentLine (lexemes : List Lexeme) (range : Span) : Prop where
  comment : ∃ x ∈ lexemes, x.isComment = true ∧ x.span.Meets range
  others : ∀ x ∈ lexemes, x.span.Meets range → x.isComment = true ∨ x.kind = .punctuation

variable {options : LineLengthOptions} {context : Context} {lexemes : List Lexeme} {line : Line} {range : Span}

theorem isCommentLine_iff :
    IsCommentLine lexemes range ↔ (∃ x ∈ lexemes, x.isComment = true ∧ x.span.Meets range) ∧
      ∀ x ∈ lexemes, x.span.Meets range → x.isComment = true ∨ x.kind = .punctuation :=
  ⟨fun h => ⟨h.comment, h.others⟩, fun h => ⟨h.1, h.2⟩⟩

instance (lexemes : List Lexeme) (range : Span) : Decidable (IsCommentLine lexemes range) :=
  decidable_of_iff _ isCommentLine_iff.symm

section

variable (hsnapshot : Snapshot.ofSource context.source = .ok context.snapshot)
  (hlexemes : Lexeme.ofSource context.source = .ok lexemes)

include hsnapshot hlexemes

/-- The filter for comments accepts lines of comments. -/
theorem accepts_iff_isCommentLine (hrange : range.isEmpty = false) :
    context.accepts (.only [.comment]) range = true ↔ IsCommentLine lexemes range := by
  have hfound := fun t => Snapshot.mem_overlapping_iff hsnapshot hlexemes hrange (t := t)
  rw [Context.accepts, TokenStream.kindsOverlapping, TokenFilter.accepts_only_iff]
  simp only [hfound, List.mem_singleton]
  constructor
  · rintro ⟨⟨t, x, hx, hmeets, ht⟩, hall⟩
    have hkind := (Lexeme.token?_eq_some_iff.1 ht).1
    rw [hall t ⟨x, hx, hmeets, ht⟩] at hkind
    refine ⟨⟨x, hx, Lexeme.isComment_iff.2 hkind, hmeets⟩, fun y hy hy' => ?_⟩
    cases hykind : y.kind with
    | punctuation => exact .inr rfl
    | token kind =>
        obtain rfl := hall ⟨kind, y.span⟩ ⟨y, hy, hy', Lexeme.token?_eq_some_iff.2 ⟨hykind, rfl⟩⟩
        exact .inl (Lexeme.isComment_iff.2 hykind)
  · rintro ⟨⟨x, hx, hcomment, hmeets⟩, hall⟩
    rw [Lexeme.isComment_iff] at hcomment
    refine ⟨⟨⟨.comment, x.span⟩, x, hx, hmeets, Lexeme.token?_eq_some_iff.2 ⟨hcomment, rfl⟩⟩, ?_⟩
    rintro t ⟨y, hy, hmeets, ht⟩
    have hkind := (Lexeme.token?_eq_some_iff.1 ht).1
    rcases hall y hy hmeets with hy | hy
    · rw [Lexeme.isComment_iff, hkind] at hy
      exact LexemeKind.token.inj hy
    · rw [hkind] at hy
      cases hy

end

/-- A line that is too long is not empty. -/
theorem isEmpty_span_of_isTooLong (hline : line ∈ context.lines.lines) (hlong : isTooLong options line = true) :
    line.span.isEmpty = false := by
  have htext := LineIndex.slice?_of_mem_lines hline
  rw [Span.slice?_eq, Option.map_eq_some_iff] at htext
  obtain ⟨piece, hpiece, hline⟩ := htext
  obtain ⟨-, -, -, -, hlength⟩ := Span.chars?_eq_some_iff.1 hpiece
  rw [Span.isEmpty, ← hlength, beq_eq_false_iff_ne, Ne, byteLength_eq_zero_iff]
  rintro rfl
  rw [isTooLong, ← hline] at hlong
  simp at hlong

section

variable (hsnapshot : Snapshot.ofSource context.source = .ok context.snapshot)
  (hlexemes : Lexeme.ofSource context.source = .ok lexemes)
  (hcomments : options.ignoresComments = true) (hurls : options.ignoresUrls = false)

include hsnapshot hlexemes hcomments hurls

/-- Of the lines that are too long the rule reports those that are no lines of comments. -/
theorem validate_eq :
    (rule options).validate context =
      (context.lines.lines.filter fun line =>
        isTooLong options line && !decide (IsCommentLine lexemes line.span)).map (violation options) := by
  change violations options context = _
  rw [violations]
  congr 1
  apply List.filter_congr
  intro line hline
  cases hlong : isTooLong options line with
  | false => rw [Bool.false_and, Bool.false_and]
  | true =>
      have haccepts := accepts_iff_isCommentLine hsnapshot hlexemes (isEmpty_span_of_isTooLong hline hlong)
      have hignored : isIgnored options context line = decide (IsCommentLine lexemes line.span) := by
        rw [isIgnored, hcomments, hurls, Bool.true_and, Bool.false_and, Bool.or_false, Bool.eq_iff_iff,
          decide_eq_true_iff]
        exact haccepts
      rw [hignored]

theorem violation_mem_of_not (hline : line ∈ context.lines.lines) (hlong : isTooLong options line = true)
    (hother : ¬IsCommentLine lexemes line.span) : violation options line ∈ (rule options).validate context := by
  rw [validate_eq hsnapshot hlexemes hcomments hurls]
  exact List.mem_map_of_mem (List.mem_filter.2 ⟨hline, by simp [hlong, hother]⟩)

/-- A line that is too long is reported exactly when it is no line of comments. -/
theorem violation_mem_iff (hlines : context.lines = LineIndex.ofString context.source)
    (hline : line ∈ context.lines.lines) (hlong : isTooLong options line = true) :
    violation options line ∈ (rule options).validate context ↔ ¬IsCommentLine lexemes line.span := by
  constructor
  · intro hmem
    rw [validate_eq hsnapshot hlexemes hcomments hurls, List.mem_map] at hmem
    obtain ⟨line', hline', hsame⟩ := hmem
    obtain ⟨hmem, htest⟩ := List.mem_filter.1 hline'
    have hlocation : line'.span.location = line.span.location := congrArg Violation.offset hsame
    have hnodup := (LineIndex.pairwise_location_lines context.source).imp Nat.ne_of_lt
    rw [← hlines] at hnodup
    obtain rfl := List.inj_on_of_nodup_map hnodup hmem hline hlocation
    simpa using (Bool.and_eq_true_iff.1 htest).2
  · exact violation_mem_of_not hsnapshot hlexemes hcomments hurls hline hlong

variable (hline : line ∈ context.lines.lines) (hlong : isTooLong options line = true) {offset : Nat} {byte : UInt8}
  (hoffset : line.span.Has offset)
  (hbyte : context.source.toByteArray.data.toList[offset]? = some byte) (hblank : byte ∉ [32, 9, 13, 10])

include hline hlong hoffset hbyte hblank

/-- A line that is too long is reported when there is a byte on it that is neither a blank nor in a comment nor in
punctuation. -/
theorem violation_mem_of_byte
    (hword : ∀ x ∈ lexemes, x.span.Has offset → x.isComment = false ∧ x.kind ≠ .punctuation) :
    violation options line ∈ (rule options).validate context := by
  have htiles := Lexeme.Tiles.of_ofSource hlexemes
  obtain ⟨x, hx, hhas⟩ := htiles.exists_has hbyte hblank
  obtain ⟨hcomment, hkind⟩ := hword x hx hhas
  refine violation_mem_of_not hsnapshot hlexemes hcomments hurls hline hlong fun hremark => ?_
  rcases hremark.others x hx ⟨offset, hhas, hoffset⟩ with h | h
  · rw [hcomment] at h
    cases h
  · exact hkind h

/-- A line without punctuation that is too long is reported when there is a byte on it that is neither a blank nor in
a comment. -/
theorem violation_mem_of_unpunctuated (hplain : ∀ x ∈ lexemes, x.span.Meets line.span → x.kind ≠ .punctuation)
    (houtside : ∀ x ∈ lexemes, x.isComment = true → ¬x.span.Has offset) :
    violation options line ∈ (rule options).validate context := by
  apply violation_mem_of_byte hsnapshot hlexemes hcomments hurls hline hlong hoffset hbyte hblank
  intro x hx hhas
  refine ⟨?_, hplain x hx ⟨offset, hhas, hoffset⟩⟩
  rw [← Bool.not_eq_true]
  exact fun hcomment => houtside x hx hcomment hhas

end

/-- The second line has a bracket before its comment and is too long. The rule passes over it. -/
theorem validate_bracket :
    let source := "f(\n) // xxxxxxxxxxxx"
    let options : LineLengthOptions := { LineLengthOptions.ofCounts 5 10 with ignoresComments := true }
    ∃ snapshot lexemes line, Snapshot.ofSource source = .ok snapshot ∧ Lexeme.ofSource source = .ok lexemes ∧
      line ∈ (LineIndex.ofString source).lines ∧ isTooLong options line = true ∧
      line.span.Has 3 ∧ source.toByteArray.data.toList[3]? = some 41 ∧
      (∀ x ∈ lexemes, x.isComment = true → ¬x.span.Has 3) ∧
      (rule options).validate { source, snapshot } = [] := by
  intro source options
  have hread : ((Snapshot.ofSource source).toOption.any fun snapshot =>
      (Lexeme.ofSource source).toOption.any fun lexemes =>
        (lexemes.all fun x => !(x.isComment && decide (x.span.location ≤ 3 ∧ 3 < x.span.stop))) &&
          ((rule options).validate { source, snapshot }).isEmpty) = true := by
    decide +kernel
  obtain ⟨snapshot, hsnapshot, hread⟩ := exists_of_toOption_any hread
  obtain ⟨lexemes, hlexemes, hread⟩ := exists_of_toOption_any hread
  obtain ⟨hbyte, hnone⟩ := Bool.and_eq_true_iff.1 hread
  refine ⟨snapshot, lexemes, ⟨2, ⟨3, 17⟩, ") // xxxxxxxxxxxx"⟩, hsnapshot, hlexemes, by decide +kernel,
    by decide +kernel, ⟨by decide, by decide⟩, by decide +kernel, fun x hx hcomment hhas => ?_,
    List.isEmpty_iff.1 hnone⟩
  have := List.all_eq_true.1 hbyte x hx
  simp [hcomment, hhas.1, hhas.2] at this

end SourceLint.LineLength
