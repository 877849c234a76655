import SourceLint.Proofs.Syntax.Shading

/-!
# A text is its lexemes with their gaps

The gap of a lexeme is the text between it and the lexeme before it, so a text is put together from its lexemes and
their gaps, but for what comes behind the last lexeme. When comments are left out, they become part of the gaps, and
the same holds.

## Main results

* `Lexeme.composes_ofSource` — the lexemes of a source and their gaps.
* `Lexeme.Composes.significant` — the lexemes that are no comments.
-/

namespace SourceLint

namespace Lexeme

/-- From the offset on the text is made of the lexemes, each behind its gap, and of what is behind the last one. -/
def Composes : (offset : Nat) → (cs : List Char) → List Lexeme → Prop
  | _, _, [] => True
  | offset, cs, x :: lexemes => ∃ behind, cs = x.gap.toList ++ x.text.toList ++ behind ∧
      x.start = offset + byteLength x.gap.toList ∧ Composes x.stop behind lexemes

theorem stop_eq (x : Lexeme) : x.stop = x.start + byteLength x.text.toList := by
  rw [stop, byteLength_toList]

/-- Comments become part of the gap before the next lexeme. -/
theorem Composes.significant {offset : Nat} {gap : String} {cs : List Char} {lexemes : List Lexeme}
    (h : Composes (offset + byteLength gap.toList) cs lexemes) :
    Composes offset (gap.toList ++ cs) (Lexeme.significant gap lexemes) := by
  induction lexemes generalizing offset gap cs with
  | nil => exact trivial
  | cons x lexemes ih =>
      obtain ⟨behind, rfl, hstart, hbehind⟩ := h
      cases hx : x.isComment with
      | true =>
          have hoffset : x.stop = offset + byteLength (gap ++ x.gap ++ x.text).toList := by
            rw [stop_eq, hstart, String.toList_append, String.toList_append, byteLength_append,
              byteLength_append, Nat.add_assoc, Nat.add_assoc, Nat.add_assoc]
          have hchars : gap.toList ++ (x.gap.toList ++ x.text.toList ++ behind) =
              (gap ++ x.gap ++ x.text).toList ++ behind := by
            simp only [String.toList_append, List.append_assoc]
          rw [significant_comment hx, hchars]
          exact ih (hoffset ▸ hbehind)
      | false =>
          rw [significant_other hx]
          refine ⟨behind, ?_, ?_, @ih x.stop "" behind hbehind⟩
          · simp only [String.toList_append, List.append_assoc]
          · rw [hstart, String.toList_append, byteLength_append, Nat.add_assoc]

end Lexeme

namespace Shading

/-- The lexemes of a marked text compose it together with the blanks before it. -/
theorem composes {offset base line : Nat} {gap : String} {marks : List Mark} {placed : List PlacedLexeme}
    (h : Shading offset gap line marks placed) (hbase : base + byteLength gap.toList = offset) :
    Lexeme.Composes base (gap.toList ++ Mark.chars marks) (placed.map Prod.snd) := by
  induction h generalizing base with
  | done => exact trivial
  | @blank offset line gap c marks placed layout later ih =>
      have hgap : (gap.push c).toList = gap.toList ++ [c] := String.toList_push c
      have hoffset : base + byteLength (gap.push c).toList = offset + c.utf8Size := by
        rw [hgap, byteLength_append, byteLength_cons, byteLength_nil, ← hbase]
        omega
      have hlater := ih hoffset
      rwa [hgap, List.append_assoc] at hlater
  | @lexeme offset line gap c body kind marks placed layout measured later ih =>
      refine ⟨Mark.chars marks, ?_, hbase.symm, ?_⟩
      · rw [Mark.chars_append, Mark.chars_ofChars, String.toList_ofList, List.append_assoc]
      · refine ih ?_
        rw [Lexeme.stop_eq, String.toList_ofList]
        rfl

end Shading

/-- A source is put together from its lexemes. -/
theorem Lexeme.composes_ofSource {source : String} {lexemes : List Lexeme} (h : ofSource source = .ok lexemes) :
    Composes 0 source.toList lexemes := by
  obtain ⟨marks, placed, hshading, hchars, rfl⟩ := Shading.exists_of_scan 1 h
  rw [← hchars]
  exact hshading.composes rfl

end SourceLint
