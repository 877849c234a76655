import SourceLint.Proofs.Bytes.Scanning
import SourceLint.Proofs.Syntax.Shading

/-!
# Lexemes tile a text

The lexemes of a text are pieces of it that begin and end between two characters and come one after the
other, and every byte outside of them is a blank. When the text is read byte by byte and not character by
character, there is a lexeme or a blank in each round, the rounds come to their end, and the text is cut
at the same places.
-/

namespace SourceLint

namespace Lexeme

/-- The bytes of a text are those that it has in memory. -/
theorem bytes_toList (source : String) :
    bytes source.toList = source.toByteArray.data.toList.map Char.ofUInt8 := by
  rw [← String.utf8Encode_toList, List.utf8Encode, List.toList_data_toByteArray, bytes]

/-- The blanks are the bytes of space, tab, newline and carriage return. -/
theorem mem_of_isLayout {byte : UInt8} (h : isLayout (Char.ofUInt8 byte) = true) :
    byte ∈ [32, 9, 13, 10] := by
  have hsame : ∀ other, Char.ofUInt8 byte = Char.ofUInt8 other → byte = other :=
    fun other hchar => UInt8.toNat_inj.1 (congrArg Char.toNat hchar)
  simp only [isLayout, Bool.or_eq_true, beq_iff_eq] at h
  rcases h with ((h | h) | h) | h
  · simp [hsame 32 h]
  · simp [hsame 9 h]
  · simp [hsame 13 h]
  · simp [hsame 10 h]

/-- Lexemes in order come one after the other. -/
theorem InOrder.pairwise {least most : Nat} {lexemes : List Lexeme} (h : InOrder least most lexemes) :
    (lexemes.Pairwise fun a b => a.stop ≤ b.start) ∧
      ∀ x ∈ lexemes, least ≤ x.start ∧ x.start < x.stop ∧ x.stop ≤ most := by
  induction lexemes generalizing least with
  | nil => exact ⟨.nil, by simp⟩
  | cons x lexemes ih =>
      obtain ⟨hleast, hlt, hrest⟩ := h
      obtain ⟨hpairwise, hbounds⟩ := ih hrest
      have hmost := hrest.least_le_most
      refine ⟨List.pairwise_cons.2 ⟨fun y hy => (hbounds y hy).1, hpairwise⟩, fun y hy => ?_⟩
      rcases List.mem_cons.1 hy with rfl | hy
      · exact ⟨hleast, hlt, hmost⟩
      · obtain ⟨hstart, hlt', hstop⟩ := hbounds y hy
        exact ⟨by omega, hlt', hstop⟩

/-- The lexemes lie in the text one after the other, they begin and end between characters, and nothing
but blanks is outside of them. -/
structure Tiles (source : String) (lexemes : List Lexeme) : Prop where
  nonempty : ∀ x ∈ lexemes, x.start < x.stop
  inside : ∀ x ∈ lexemes, x.stop ≤ source.utf8ByteSize
  begins : ∀ x ∈ lexemes, (String.Pos.Raw.mk x.start).IsValid source
  ends : ∀ x ∈ lexemes, (String.Pos.Raw.mk x.stop).IsValid source
  texts : ∀ x ∈ lexemes, x.span.slice? source = some x.text
  ordered : lexemes.Pairwise fun a b => a.stop ≤ b.start
  blanks : ∀ offset byte, source.toByteArray.data.toList[offset]? = some byte →
    (∀ x ∈ lexemes, ¬(x.start ≤ offset ∧ offset < x.stop)) → byte ∈ [32, 9, 13, 10]

end Lexeme

namespace Shading

open Mark

variable {offset line : Nat} {gap : String} {marks : List Mark} {placed : List PlacedLexeme}

/-- A byte outside all lexemes is a blank. -/
theorem isLayout_of_outside (h : Shading offset gap line marks placed) {i : Nat} {byte : Char}
    (hbyte : (Lexeme.bytes (chars marks))[i]? = some byte)
    (houtside : ∀ x ∈ placed, ¬(x.2.start ≤ offset + i ∧ offset + i < x.2.stop)) :
    Lexeme.isLayout byte = true := by
  induction h generalizing i with
  | done => cases hbyte
  | @blank offset line gap c marks placed layout later ih =>
      have hc : ¬Lexeme.IsHigh c := by
        intro hhigh
        cases layout.symm.trans (Lexeme.isLayout_of_isHigh hhigh)
      rw [chars_cons, Lexeme.bytes_cons_ascii hc] at hbyte
      cases i with
      | zero =>
          obtain rfl := Option.some.inj hbyte
          exact layout
      | succ i =>
          apply ih hbyte
          intro x hx
          rw [Lexeme.utf8Size_of_ascii hc, Nat.add_assoc, Nat.add_comm 1]
          exact houtside x hx
  | @lexeme offset line gap c body kind marks placed layout measured later ih =>
      have hsize : (String.ofList (c :: body)).utf8ByteSize = byteLength (c :: body) :=
        Lexeme.utf8ByteSize_ofList _
      have hbehind : byteLength (c :: body) ≤ i := by
        have hfirst := houtside _ List.mem_cons_self
        simp only [Lexeme.stop, hsize] at hfirst
        omega
      rw [chars_append, chars_ofChars, Lexeme.bytes_append,
        List.getElem?_append_right (by rwa [Lexeme.length_bytes]), Lexeme.length_bytes] at hbyte
      apply ih hbyte
      intro x hx
      rw [Nat.add_assoc, Nat.add_sub_cancel' hbehind]
      exact houtside x (List.mem_cons_of_mem _ hx)

/-- The lexemes of a marked text tile it. -/
theorem tiles {source : String} (h : Shading 0 gap line marks placed)
    (hsource : source.toList = chars marks) : Lexeme.Tiles source (placed.map Prod.snd) := by
  have hlexemes : Lexeme.scan 0 gap source.toList = .ok (placed.map Prod.snd) := by
    rw [hsource, h.scan_eq]
  have horder := Lexeme.inOrder_of_scan hlexemes
  rw [Nat.zero_add, byteLength_toList] at horder
  obtain ⟨hordered, hbounds⟩ := horder.pairwise
  have hpiece : ∀ x ∈ placed.map Prod.snd, ∃ front back,
      source.toList = front ++ x.text.toList ++ back ∧ byteLength front = x.start := by
    intro x hx
    obtain ⟨y, hy, rfl⟩ := List.mem_map.1 hx
    obtain ⟨front, c, body, back, hmarks, hstart, htext, -⟩ := h.exists_piece hy
    refine ⟨chars front, chars back, ?_, by rw [hstart, Nat.zero_add]⟩
    rw [hsource, hmarks, htext, String.toList_ofList, chars_append, chars_append, chars_ofChars]
  constructor
  case nonempty => exact fun x hx => (hbounds x hx).2.1
  case inside => exact fun x hx => (hbounds x hx).2.2
  case begins =>
    intro x hx
    obtain ⟨front, back, hsplit, hstart⟩ := hpiece x hx
    exact isValid_iff_exists.2 ⟨front, x.text.toList ++ back, by rw [hsplit, List.append_assoc], hstart⟩
  case ends =>
    intro x hx
    obtain ⟨front, back, hsplit, hstart⟩ := hpiece x hx
    refine isValid_iff_exists.2 ⟨front ++ x.text.toList, back, hsplit, ?_⟩
    rw [byteLength_append, byteLength_toList, hstart, Lexeme.stop]
  case texts =>
    intro x hx
    obtain ⟨front, back, hsplit, hstart⟩ := hpiece x hx
    rw [Span.slice?_eq, Option.map_eq_some_iff]
    exact ⟨x.text.toList, Span.chars?_eq_some_iff.2 ⟨front, back, hsplit, hstart, byteLength_toList _⟩,
      String.ofList_toList⟩
  case ordered => exact hordered
  case blanks =>
    intro offset byte hbyte houtside
    have hchar : (Lexeme.bytes (chars marks))[offset]? = some (Char.ofUInt8 byte) := by
      rw [← hsource, Lexeme.bytes_toList, List.getElem?_map, hbyte]
      rfl
    have hlayout := h.isLayout_of_outside hchar fun x hx => by
      rw [Nat.zero_add]
      exact houtside x.2 (List.mem_map_of_mem hx)
    exact Lexeme.mem_of_isLayout hlayout

end Shading

namespace Lexeme

/-- The lexemes of a text tile it. -/
theorem Tiles.of_ofSource {source : String} {lexemes : List Lexeme} (h : ofSource source = .ok lexemes) :
    Tiles source lexemes := by
  obtain ⟨marks, placed, hshading, hchars, rfl⟩ := Shading.exists_of_scan 1 h
  exact hshading.tiles hchars.symm

/-- Read byte by byte, a text is cut in at most as many rounds as it has bytes, and the cuts are those of
its lexemes, if it has any. These lexemes tile the text. -/
theorem ofSource_tiles (source : String) :
    (∃ result, scanBytes source.utf8ByteSize 0 (source.toByteArray.data.toList.map Char.ofUInt8) =
        some result ∧
      result.toOption = (ofSource source).toOption.map fun lexemes =>
        lexemes.map fun x => (x.kind, x.span)) ∧
    ∀ lexemes, ofSource source = .ok lexemes → Tiles source lexemes := by
  constructor
  · rw [← bytes_toList]
    exact scanBytes_bytes (Nat.le_of_eq (byteLength_toList source))
  · intro lexemes h
    obtain ⟨marks, placed, hshading, hchars, rfl⟩ := Shading.exists_of_scan 1 h
    exact hshading.tiles hchars.symm

/-- A character of two bytes behind an escape, in a comment and as a word of its own. -/
theorem ofSource_tiles_accents :
    ∃ lexemes, ofSource "\"\\é\" /*é*/\té" = .ok lexemes ∧
      lexemes.map (fun x => (x.start, x.stop)) = [(0, 5), (6, 12), (13, 15)] ∧
      Tiles "\"\\é\" /*é*/\té" lexemes := by
  have hrun : ((ofSource "\"\\é\" /*é*/\té").toOption.any fun lexemes =>
      lexemes.map (fun x => (x.start, x.stop)) == [(0, 5), (6, 12), (13, 15)]) = true := by
    decide +kernel
  obtain ⟨lexemes, hlexemes, hspans⟩ := exists_of_toOption_any hrun
  exact ⟨lexemes, hlexemes, eq_of_beq hspans, (ofSource_tiles _).2 lexemes hlexemes⟩

end Lexeme

end SourceLint
