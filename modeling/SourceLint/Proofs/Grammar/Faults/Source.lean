import SourceLint.Grammar.Source
import SourceLint.Proofs.Grammar.Faults.Statements
import SourceLint.Proofs.Grammar.Structure
import SourceLint.Proofs.Syntax.Tiling
import SourceLint.Proofs.Syntax.Unterminated

/-!
# Errors point at what they name

A source text without a structure has an error, and the offset of the error is the place of what it names: the
beginning of a literal or a comment that has no end, a delimiter that is not closed, a piece of text that has no
place there, or the lexeme before which something is missing.

## Main result

* `Snapshot.pointsInto_of_ofSource`: what the error of a source text is about.
-/

namespace SourceLint

namespace SyntaxError

/-- The offset of an error about a text. -/
def offset? : SyntaxError → Option Nat
  | .unterminatedString offset | .unterminatedComment offset | .unclosed _ offset | .unexpected _ offset
  | .expected _ offset => some offset
  | .malformed _ => none

/-- What the error names is in the source at its offset. Something is missing before a lexeme that is no comment, or
at the end. -/
def PointsInto (source : String) : SyntaxError → Prop
  | .unterminatedString offset =>
    StandsAt ['"'] offset source.toList ∨ StandsAt ['#'] offset source.toList
  | .unterminatedComment offset => StandsAt ['/', '*'] offset source.toList
  | .unclosed delimiter offset => StandsAt [delimiter] offset source.toList
  | .unexpected found offset => found ≠ "" ∧ StandsAt found.toList offset source.toList
  | .expected _ offset =>
    offset = source.utf8ByteSize ∨ ∃ lexemes, Lexeme.ofSource source = .ok lexemes ∧
      ∃ x ∈ lexemes, x.isComment = false ∧ x.start = offset
  | .malformed _ => False

theorem IsOpenEnded.pointsInto {source : String} {error : SyntaxError}
    (h : error.IsOpenEnded source.toList) : error.PointsInto source := by
  cases error with
  | unterminatedString offset => exact h
  | unterminatedComment offset => exact h
  | unexpected found offset =>
      obtain ⟨rfl, hstands⟩ := h
      exact ⟨by decide, hstands⟩
  | unclosed delimiter offset => exact h.elim
  | expected what offset => exact h.elim
  | malformed fault => exact h

end SyntaxError

namespace Lexeme

/-- The significant lexemes are those that are no comments, but for their gaps. -/
theorem exists_of_mem_significant {x : Lexeme} {gap : String} {lexemes : List Lexeme}
    (h : x ∈ significant gap lexemes) :
    ∃ y ∈ lexemes, y.isComment = false ∧ x.start = y.start ∧ x.text = y.text := by
  induction lexemes generalizing gap with
  | nil => cases h
  | cons y lexemes ih =>
      have hlater : ∀ gap, x ∈ significant gap lexemes →
          ∃ z ∈ y :: lexemes, z.isComment = false ∧ x.start = z.start ∧ x.text = z.text := by
        intro gap hx
        obtain ⟨z, hz, hsame⟩ := ih hx
        exact ⟨z, List.mem_cons_of_mem _ hz, hsame⟩
      cases hy : y.isComment with
      | true =>
          rw [significant_comment hy] at h
          exact hlater _ h
      | false =>
          rw [significant_other hy] at h
          rcases List.mem_cons.1 h with rfl | h
          · exact ⟨y, List.mem_cons_self, hy, rfl, rfl⟩
          · exact hlater _ h

/-- A lexeme is a piece of the text that is not empty. -/
theorem standsAt_of_mem {source : String} {lexemes : List Lexeme} (h : ofSource source = .ok lexemes)
    {x : Lexeme} (hx : x ∈ lexemes) :
    StandsAt x.text.toList x.start source.toList ∧ ∃ c cs, x.text.toList = c :: cs := by
  obtain ⟨marks, placed, hshading, hchars, rfl⟩ := Shading.exists_of_scan 1 h
  have htiles := hshading.tiles hchars.symm
  have htext := htiles.texts x hx
  rw [Span.slice?_eq, Option.map_eq_some_iff] at htext
  obtain ⟨piece, hpiece, hofList⟩ := htext
  obtain ⟨front, back, hsource, hstart, -⟩ := Span.chars?_eq_some_iff.1 hpiece
  have hlist : x.text.toList = piece := by rw [← hofList, String.toList_ofList]
  refine ⟨⟨front, back, by rw [hsource, hlist], hstart⟩, List.exists_cons_of_ne_nil fun hnil => ?_⟩
  have hnonempty := htiles.nonempty x hx
  rw [stop, ← byteLength_toList, hnil] at hnonempty
  exact Nat.lt_irrefl _ hnonempty

end Lexeme

/-- An error about the significant lexemes of a source points into it. -/
theorem SyntaxError.PointsAhead.pointsInto {source : String} {lexemes : List Lexeme} {error : SyntaxError}
    (hlexemes : Lexeme.ofSource source = .ok lexemes)
    (h : error.PointsAhead ⟨Lexeme.significant "" lexemes, 0, source.utf8ByteSize⟩) :
    error.PointsInto source := by
  cases error with
  | unclosed delimiter offset =>
      obtain ⟨x, hx, rfl, rfl⟩ := h
      obtain ⟨y, hy, -, hstart, htext⟩ := Lexeme.exists_of_mem_significant hx
      obtain ⟨⟨front, back, hsource, hlength⟩, c, cs, hchars⟩ := Lexeme.standsAt_of_mem hlexemes hy
      rw [htext, hchars, hstart]
      exact ⟨front, cs ++ back, by simp [hsource, hchars], hlength⟩
  | unexpected found offset =>
      obtain ⟨x, hx, rfl, rfl⟩ := h
      obtain ⟨y, hy, -, hstart, htext⟩ := Lexeme.exists_of_mem_significant hx
      obtain ⟨hstands, c, cs, hchars⟩ := Lexeme.standsAt_of_mem hlexemes hy
      rw [htext, hstart]
      refine ⟨fun hempty => ?_, hstands⟩
      rw [hempty] at hchars
      cases hchars
  | expected what offset =>
      rcases h with ⟨x, hx, rfl⟩ | rfl
      · obtain ⟨y, hy, hcomment, hstart, -⟩ := Lexeme.exists_of_mem_significant hx
        exact .inr ⟨lexemes, hlexemes, y, hy, hcomment, hstart.symm⟩
      · exact .inl rfl
  | unterminatedString offset => exact h.elim
  | unterminatedComment offset => exact h.elim
  | malformed fault => exact h

/-- An error that points into a source has an offset between two characters or at one of the ends. -/
theorem SyntaxError.PointsInto.exists_offset {source : String} {error : SyntaxError}
    (h : error.PointsInto source) :
    ∃ offset, error.offset? = some offset ∧ offset ≤ source.utf8ByteSize ∧
      IsBoundary offset source.toList := by
  have hplace : ∀ offset, error.offset? = some offset → IsBoundary offset source.toList →
      ∃ offset, error.offset? = some offset ∧ offset ≤ source.utf8ByteSize ∧
        IsBoundary offset source.toList := fun offset hoffset hboundary =>
    ⟨offset, hoffset, hboundary.le, hboundary⟩
  cases error with
  | unterminatedString offset => exact hplace offset rfl (h.elim StandsAt.isBoundary StandsAt.isBoundary)
  | unterminatedComment offset => exact hplace offset rfl h.isBoundary
  | unclosed delimiter offset => exact hplace offset rfl h.isBoundary
  | unexpected found offset => exact hplace offset rfl h.2.isBoundary
  | expected what offset =>
      refine hplace offset rfl ?_
      rcases h with rfl | ⟨lexemes, hlexemes, x, hx, -, rfl⟩
      · exact isBoundary_iff.2 ⟨source.toList, [], by simp, byteLength_toList source⟩
      · exact (Lexeme.standsAt_of_mem hlexemes hx).1.isBoundary
  | malformed fault => exact h.elim

namespace Snapshot

/-- Whatever the source text is, the error that it has in place of a structure points at what it names, at an offset
between two characters or at one of the ends. -/
theorem pointsInto_of_ofSource {source : String} {error : SyntaxError} (h : ofSource source = .error error) :
    error.PointsInto source ∧ ∃ offset, error.offset? = some offset ∧ offset ≤ source.utf8ByteSize ∧
      IsBoundary offset source.toList := by
  suffices hpoints : error.PointsInto source from ⟨hpoints, hpoints.exists_offset⟩
  rw [ofSource] at h
  cases hlexemes : Lexeme.ofSource source with
  | error e =>
      rw [hlexemes] at h
      obtain rfl : e = error := Except.error.inj h
      exact (Lexeme.failsWith_ofSource source e hlexemes).pointsInto
  | ok lexemes =>
      have hfile := Grammar.answers_file (Lexeme.significant "" lexemes) source.utf8ByteSize
      simp only [hlexemes, bind, Except.bind] at h
      cases hforest : Grammar.file (Lexeme.significant "" lexemes) source.utf8ByteSize with
      | ok forest =>
          obtain ⟨htokens, hnodes, -⟩ := parts_pass hlexemes hforest
          simp [hforest, assemble, TokenStream.toList, TokenStream.ofList, htokens, hnodes] at h
      | error failure =>
          rw [hforest] at h hfile
          cases failure with
          | fault e =>
              obtain rfl : e = error := Except.error.inj h
              exact SyntaxError.PointsAhead.pointsInto hlexemes hfile
          | exhausted => exact hfile.elim

/-- A literal in an interpolation that has no end, behind a character of two bytes. -/
theorem pointsInto_of_ofSource_nested :
    ofSource "é = \"\\(\"a)" = .error (.unterminatedString 8) ∧
      SyntaxError.PointsInto "é = \"\\(\"a)" (.unterminatedString 8) ∧
      IsBoundary 8 "é = \"\\(\"a)".toList := by
  have herror : ofSource "é = \"\\(\"a)" = .error (.unterminatedString 8) := by decide +kernel
  obtain ⟨hpoints, offset, hoffset, -, hboundary⟩ := pointsInto_of_ofSource herror
  obtain rfl := Option.some.inj hoffset
  exact ⟨herror, hpoints, hboundary⟩

end Snapshot

end SourceLint
