import Mathlib.Data.List.Count
import Mathlib.Data.Prod.Lex
import Mathlib.Data.Set.Function
import Mathlib.Order.Monotone.Defs
import SourceLint.Proofs.Correction.Splicing
import SourceLint.Proofs.Syntax.Tiling
import SourceLint.Proofs.Text.Boundaries
import SourceLint.Proofs.Text.Lines

/-!
# Lines and columns of offsets

The index finds the line of an offset by halving and the column by counting the characters of the line that end at
the offset or before it. Both go by the last place between characters that comes no later than the offset: the line
counts the newlines before that place and the column the characters between the start of the line and that place.
From a line and a column the place can be found again.

## Main results

* `LineIndex.isPosition_position`: what the line and the column of any offset are.
* `LineIndex.position_spec`: with that, positions of places between characters are in the order of the places.
-/

namespace SourceLint

/-! ### Whole characters -/

/-- A piece of a text with a part of the next character has the characters of the piece. -/
theorem wholeChars_append {more : Nat} {tail : List Char} (htail : ∀ c ∈ tail.head?, more < c.utf8Size)
    (piece : List Char) : wholeChars (byteLength piece + more) (piece ++ tail) = piece.length := by
  induction piece with
  | nil =>
      cases tail with
      | nil => rfl
      | cons c tail =>
          have hlt := htail c rfl
          rw [List.nil_append, byteLength_nil, Nat.zero_add, wholeChars, if_neg (by omega)]
          rfl
  | cons c piece ih =>
      have hle : c.utf8Size ≤ byteLength (c :: piece) + more := by
        rw [byteLength_cons]
        omega
      have hrest : byteLength (c :: piece) + more - c.utf8Size = byteLength piece + more := by
        rw [byteLength_cons]
        omega
      rw [List.cons_append, wholeChars, if_pos hle, hrest, ih, List.length_cons]

theorem wholeChars_mono {m n : Nat} (h : m ≤ n) (cs : List Char) : wholeChars m cs ≤ wholeChars n cs := by
  induction cs generalizing m n with
  | nil => exact Nat.le_refl 0
  | cons c cs ih =>
      rw [wholeChars, wholeChars]
      split
      · rw [if_pos (by omega)]
        exact Nat.succ_le_succ (ih (by omega))
      · exact Nat.zero_le _

/-! ### Newlines among bytes -/

/-- A newline is one byte, and no byte of another character is a newline. -/
theorem Lexeme.count_bytes (cs : List Char) : (bytes cs).count '\n' = cs.count '\n' := by
  induction cs with
  | nil => rfl
  | cons c cs ih =>
      by_cases hc : IsHigh c
      · have hbytes : '\n' ∉ bytes [c] := fun h => absurd (isHigh_of_mem_bytes hc _ h) (by decide)
        have hne : c ≠ '\n' := ne_of_isHigh hc (by decide)
        rw [← List.singleton_append, bytes_append, List.count_append, ih,
          List.count_eq_zero_of_not_mem hbytes, List.singleton_append, List.count_cons_of_ne hne,
          Nat.zero_add]
      · rw [bytes_cons_ascii hc, List.count_cons, List.count_cons, ih]

/-- Some bytes of a character, not all of them, have no newline among them. -/
theorem Lexeme.count_take_bytes {c : Char} {n : Nat} (hn : n < c.utf8Size) (cs : List Char) :
    ((bytes (c :: cs)).take n).count '\n' = 0 := by
  rw [List.count_eq_zero]
  intro hmem
  rw [← List.singleton_append, bytes_append,
    List.take_append_of_le_length (by rw [length_bytes]; simp; omega)] at hmem
  by_cases hc : IsHigh c
  · exact absurd (isHigh_of_mem_bytes hc _ (List.mem_of_mem_take hmem)) (by decide)
  · rw [utf8Size_of_ascii hc] at hn
    obtain rfl : n = 0 := by omega
    cases hmem

/-- The newlines before an offset are those before the character that goes on beyond it. -/
theorem count_newlines {source : String} {offset : Nat} {front rest : List Char}
    (hsource : source.toList = front ++ rest) (hle : byteLength front ≤ offset)
    (hbeyond : EndsBeyond offset front rest) :
    (source.toByteArray.data.toList.take offset).count 10 = front.count '\n' := by
  have hinjective : Function.Injective Char.ofUInt8 :=
    fun a b hab => UInt8.toNat_inj.1 (congrArg Char.toNat hab)
  have hnewline : Char.ofUInt8 10 = '\n' := rfl
  rw [← List.count_map_of_injective _ _ hinjective, hnewline, List.map_take, ← Lexeme.bytes_toList,
    hsource, Lexeme.bytes_append, List.take_append, Lexeme.length_bytes,
    List.take_of_length_le (by rw [Lexeme.length_bytes]; exact hle), List.count_append,
    Lexeme.count_bytes]
  cases rest with
  | nil => simp
  | cons c rest =>
      have hlt := hbeyond c rfl
      rw [Lexeme.count_take_bytes (by omega), Nat.add_zero]

namespace LineIndex

variable {source : String}

/-! ### The line of an offset -/

/-- No line starts behind the end of a text, so an offset there has the line of the end. -/
theorem lineOf_min (source : String) (offset : Nat) :
    (ofString source).lineOf (min offset source.utf8ByteSize) = (ofString source).lineOf offset := by
  rw [lineOf, lineOf, partitionPoint_starts, partitionPoint_starts]
  congr 1
  apply List.countP_congr
  intro start hstart
  have hle : start ≤ source.utf8ByteSize := by
    rcases List.mem_cons.1 hstart with rfl | hstart
    · exact Nat.zero_le _
    · have := (mem_offsetsAfterNewlines hstart).2
      rw [byteLength_toList] at this
      omega
  simp only [decide_eq_true_eq]
  omega

/-- The line of an offset within a text counts the newlines before the character that goes on beyond it. -/
theorem lineOf_of_endsBeyond {offset : Nat} {front rest : List Char}
    (hsource : source.toList = front ++ rest) (hle : byteLength front ≤ offset)
    (hsize : offset ≤ source.utf8ByteSize) (hbeyond : EndsBeyond offset front rest) :
    (ofString source).lineOf offset = front.count '\n' + 1 := by
  cases rest with
  | nil =>
      have hlength : byteLength front = source.utf8ByteSize := by
        rw [← byteLength_toList, hsource, List.append_nil]
      obtain rfl : offset = byteLength front := by omega
      rw [lineOf_append hsource, Nat.add_comm]
  | cons c rest =>
      obtain ⟨more, rfl⟩ := Nat.exists_eq_add_of_le hle
      have hlt : more < c.utf8Size := by
        have := hbeyond c rfl
        omega
      have hparts : source.toList = front ++ [c] ++ rest := by simpa using hsource
      have hnone : (offsetsAfterNewlines 0 [c]).countP (· ≤ more) = 0 := by
        rw [List.countP_eq_zero]
        intro start hstart
        simp only [offsetsAfterNewlines] at hstart
        split at hstart
        · obtain rfl := List.mem_singleton.1 hstart
          simp only [decide_eq_true_eq]
          omega
        · cases hstart
      rw [lineOf_within hparts (by simp; omega), hnone]
      omega

/-- The position of an offset from the line of the place that stands for it. -/
theorem position_eq {offset line : Nat}
    (hline : (ofString source).lineOf (min offset source.utf8ByteSize) = line) :
    (ofString source).position offset =
      (line, wholeChars (min offset source.utf8ByteSize - ((ofString source).lineStart? line).getD 0)
        ((ofString source).lineChars line) + 1) := by
  subst hline
  rfl

end LineIndex

/-! ### The place of an offset in its line -/

/-- A text around an offset: the lines before that of the offset, the piece of its line up to the last place between
characters that comes no later, the rest of the line, and what comes behind the line. -/
structure IsAround (source : String) (offset : Nat) (front piece more back : List Char) : Prop where
  isLine : IsLine source.toList front (piece ++ more) back
  le : byteLength (front ++ piece) ≤ min offset source.utf8ByteSize
  beyond : EndsBeyond (min offset source.utf8ByteSize) (front ++ piece) (more ++ back)

theorem exists_isAround (source : String) (offset : Nat) :
    ∃ front piece more back, IsAround source offset front piece more back := by
  obtain ⟨before, behind, hsource, hle, hbeyond⟩ :=
    exists_endsBeyond (min offset source.utf8ByteSize) source.toList
  obtain ⟨front, piece, rfl, hbegins, hpiece⟩ := exists_lastLine before
  obtain ⟨more, back, rfl, hmore, hends⟩ := exists_firstLine behind
  have hplain : '\n' ∉ piece ++ more := fun h => (List.mem_append.1 h).elim hpiece hmore
  exact ⟨front, piece, more, back, ⟨by simp [hsource], hbegins, hplain, hends⟩, hle, hbeyond⟩

namespace IsAround

variable {source : String} {offset : Nat} {front piece more back : List Char}

section

variable (h : IsAround source offset front piece more back)

include h

theorem parts : source.toList = front ++ piece ++ (more ++ back) := by
  rw [h.isLine.parts]
  simp

theorem isLastBoundary :
    IsLastBoundary (min offset source.utf8ByteSize) source.toList (byteLength (front ++ piece)) := by
  rw [h.parts]
  exact h.beyond.isLastBoundary h.le

theorem count_eq : (front ++ piece).count '\n' = front.count '\n' := by
  have hplain : '\n' ∉ piece := fun hmem => h.isLine.plain (List.mem_append_left _ hmem)
  rw [List.count_append, List.count_eq_zero_of_not_mem hplain, Nat.add_zero]

theorem lineOf_min :
    (LineIndex.ofString source).lineOf (min offset source.utf8ByteSize) = front.count '\n' + 1 := by
  rw [LineIndex.lineOf_of_endsBeyond h.parts h.le (Nat.min_le_right _ _) h.beyond, h.count_eq]

theorem position :
    (LineIndex.ofString source).position offset = (front.count '\n' + 1, piece.length + 1) := by
  have hplace : min offset source.utf8ByteSize - byteLength front =
      byteLength piece + (min offset source.utf8ByteSize - byteLength (front ++ piece)) := by
    have hle := h.le
    rw [byteLength_append] at hle ⊢
    omega
  have hhead : (more ++ back.take 1).head? = (more ++ back).head? := by
    cases more <;> cases back <;> rfl
  have hnext : ∀ c ∈ (more ++ back.take 1).head?,
      min offset source.utf8ByteSize - byteLength (front ++ piece) < c.utf8Size := by
    intro c hc
    have hlt := h.beyond c (by rwa [← hhead])
    have hle := h.le
    omega
  have hcount := wholeChars_append hnext piece
  rw [← hplace] at hcount
  rw [LineIndex.position_eq h.lineOf_min, h.isLine.lineStart?, h.isLine.lineChars, Option.getD_some,
    List.append_assoc, hcount]

/-- At the place itself the text is cut in the same way. -/
theorem place : IsAround source (byteLength (front ++ piece)) front piece more back := by
  have hmin : min (byteLength (front ++ piece)) source.utf8ByteSize = byteLength (front ++ piece) :=
    Nat.min_eq_left (Nat.le_trans h.le (Nat.min_le_right _ _))
  refine ⟨h.isLine, Nat.le_of_eq hmin.symm, fun c _ => ?_⟩
  rw [hmin]
  exact Nat.lt_add_of_pos_right c.utf8Size_pos

end

end IsAround

namespace LineIndex

/-- The offset of a line and a column. -/
def offsetAt (index : LineIndex) (position : Nat × Nat) : Nat :=
  (index.lineStart? position.1).getD 0 + byteLength ((index.lineChars position.1).take (position.2 - 1))

end LineIndex

/-- What the line and the column of an offset are, with the line under its span and the piece of it that the column
counts. -/
structure IsPosition (source : String) (offset line column start stop : Nat) (text piece : String) : Prop where
  lineOf_eq : (LineIndex.ofString source).lineOf offset = line
  count_newlines :
    line = 1 + (source.toByteArray.data.toList.take (min offset source.utf8ByteSize)).count 10
  lineStart? : (LineIndex.ofString source).lineStart? line = some start
  line_slice? :
    (Span.ofBounds start ((LineIndex.ofString source).lineEnd line)).slice? source = some text
  isLastBoundary : IsLastBoundary (min offset source.utf8ByteSize) source.toList stop
  start_le : start ≤ stop
  piece_slice? : (Span.ofBounds start stop).slice? source = some piece
  column_eq : column = 1 + piece.toList.length
  position_stop : (LineIndex.ofString source).position stop = (line, column)
  stop_eq : stop = start + byteLength (text.toList.take (column - 1))

theorem IsAround.isPosition {source : String} {offset : Nat} {front piece more back : List Char}
    (h : IsAround source offset front piece more back) :
    IsPosition source offset (front.count '\n' + 1) (piece.length + 1) (byteLength front)
      (byteLength (front ++ piece)) (String.ofList (piece ++ more ++ back.take 1)) (String.ofList piece) where
  lineOf_eq := by rw [← LineIndex.lineOf_min, h.lineOf_min]
  count_newlines := by
    rw [SourceLint.count_newlines h.parts h.le h.beyond, h.count_eq, Nat.add_comm]
  lineStart? := h.isLine.lineStart?
  line_slice? := h.isLine.slice?_lineEnd
  isLastBoundary := h.isLastBoundary
  start_le := by
    rw [byteLength_append]
    exact Nat.le_add_right _ _
  piece_slice? := Span.slice?_ofBounds h.parts
  column_eq := by rw [String.toList_ofList, Nat.add_comm]
  position_stop := h.place.position
  stop_eq := by
    rw [String.toList_ofList, Nat.add_sub_cancel, List.append_assoc, List.take_left, byteLength_append]

namespace LineIndex

variable {source : String}

/-- Every offset, also one past the end or inside a character, has its line and its column. -/
theorem isPosition_position (source : String) (offset : Nat) :
    ∃ start stop text piece, IsPosition source offset ((ofString source).position offset).1
      ((ofString source).position offset).2 start stop text piece := by
  obtain ⟨front, piece, more, back, h⟩ := exists_isAround source offset
  rw [h.position]
  exact ⟨_, _, _, _, h.isPosition⟩

/-- The line and the column of a place between characters lead back to that place. -/
theorem offsetAt_position {offset : Nat} (hoffset : IsBoundary offset source.toList) :
    (ofString source).offsetAt ((ofString source).position offset) = offset := by
  obtain ⟨front, piece, more, back, h⟩ := exists_isAround source offset
  have hmin : min offset source.utf8ByteSize = offset := Nat.min_eq_left hoffset.le
  have hplace := h.isLastBoundary
  rw [hmin] at hplace
  rw [h.position, offsetAt, h.isLine.lineStart?, h.isLine.lineChars, Option.getD_some, Nat.add_sub_cancel,
    List.append_assoc, List.take_left, ← byteLength_append]
  exact hplace.eq_of_isBoundary hoffset

/-- Later offsets have later positions or the same one. -/
theorem position_mono (source : String) : Monotone fun offset => toLex ((ofString source).position offset) := by
  intro offset offset' hle
  have hplace : min offset source.utf8ByteSize ≤ min offset' source.utf8ByteSize := by omega
  rw [Prod.Lex.toLex_le_toLex]
  rcases Nat.eq_or_lt_of_le (lineOf_mono source hplace) with hline | hline
  · rw [position_eq hline, position_eq rfl]
    exact .inr ⟨rfl, Nat.succ_le_succ (wholeChars_mono (Nat.sub_le_sub_right hplace _) _)⟩
  · exact .inl hline

/-- What the line and the column of any offset are, and that they are different for different places between
characters, in the order of the places. -/
theorem position_spec (source : String) :
    (∀ offset, ∃ start stop text piece, IsPosition source offset ((ofString source).position offset).1
      ((ofString source).position offset).2 start stop text piece) ∧
    StrictMonoOn (fun offset => toLex ((ofString source).position offset))
      {offset | IsBoundary offset source.toList} ∧
    Set.InjOn (ofString source).position {offset | IsBoundary offset source.toList} ∧
    Set.LeftInvOn (ofString source).offsetAt (ofString source).position
      {offset | IsBoundary offset source.toList} := by
  have hback : Set.LeftInvOn (ofString source).offsetAt (ofString source).position
      {offset | IsBoundary offset source.toList} := fun _ hoffset => offsetAt_position hoffset
  refine ⟨isPosition_position source, fun a ha b hb hlt => ?_, hback.injOn, hback⟩
  refine lt_of_le_of_ne (position_mono source (Nat.le_of_lt hlt)) fun heq => ?_
  exact Nat.ne_of_lt hlt (hback.injOn ha hb (toLex.injective heq))

end LineIndex

end SourceLint
