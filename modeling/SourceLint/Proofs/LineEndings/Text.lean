import Mathlib.Order.MinMax
import Mathlib.Order.Monotone.Basic
import SourceLint.Proofs.Grammar.Embedding.Relocation
import SourceLint.Proofs.Text.Positions

/-!
# Texts with carriage returns

A text whose lines end with newlines can be written with a carriage return before each of them. Its pieces are
then found at later places: each newline before a place moves that place by one.

A carriage return before a newline belongs to the end of the line. So a text with carriage returns has the lines of
the text without them, with the same numbers and the same characters, and each place has its line and its column in
both.

## Main definitions

* `withReturns`, `returned`: the text with a carriage return before each newline.
* `returnedOffset`: where an offset of the text is then.
* `Relocation.returns`: both of them as a relocation.

## Main results

* `LineIndex.position_returned`: places have the lines and the columns that they have without carriage returns.
* `LineIndex.lines_returned`: so do the lines have their numbers and their texts.
-/

namespace SourceLint

/-- The text with a carriage return before each newline. -/
def withReturns : List Char → List Char
  | [] => []
  | c :: cs => if c = '\n' then '\r' :: '\n' :: withReturns cs else c :: withReturns cs

/-- The text with a carriage return before each newline, as a string. -/
def returned (text : String) : String := String.ofList (withReturns text.toList)

/-- Where an offset of a text is when there is a carriage return before each newline. An offset inside a
character stays inside it, and one past the end stays as far past the end. -/
def returnedOffset : List Char → Nat → Nat
  | [], n => n
  | c :: cs, n =>
    if n < c.utf8Size then n else byteLength (withReturns [c]) + returnedOffset cs (n - c.utf8Size)

/-! ### Characters -/

@[simp] theorem withReturns_nil : withReturns [] = [] := rfl

@[simp] theorem withReturns_newline (cs : List Char) :
    withReturns ('\n' :: cs) = '\r' :: '\n' :: withReturns cs := rfl

theorem withReturns_cons {c : Char} (hc : c ≠ '\n') (cs : List Char) :
    withReturns (c :: cs) = c :: withReturns cs := if_neg hc

@[simp] theorem withReturns_append (cs ds : List Char) :
    withReturns (cs ++ ds) = withReturns cs ++ withReturns ds := by
  induction cs with
  | nil => rfl
  | cons c cs ih =>
      rw [List.cons_append, withReturns, withReturns, ih]
      split
      · rfl
      · rfl

theorem withReturns_singleton_append (c : Char) (cs : List Char) :
    withReturns (c :: cs) = withReturns [c] ++ withReturns cs :=
  withReturns_append [c] cs

theorem withReturns_eq_self {cs : List Char} (h : '\n' ∉ cs) : withReturns cs = cs := by
  induction cs with
  | nil => rfl
  | cons c cs ih =>
      rw [List.mem_cons, not_or] at h
      rw [withReturns_cons (Ne.symm h.1), ih h.2]

theorem mem_withReturns_iff {c : Char} (hc : c ≠ '\r') {cs : List Char} :
    c ∈ withReturns cs ↔ c ∈ cs := by
  induction cs with
  | nil => rfl
  | cons d cs ih =>
      rw [withReturns]
      split
      · rename_i hd
        rw [List.mem_cons, List.mem_cons, List.mem_cons, ih, hd, or_iff_right hc]
      · rw [List.mem_cons, List.mem_cons, ih]

theorem withReturns_eq_nil_iff {cs : List Char} : withReturns cs = [] ↔ cs = [] := by
  cases cs with
  | nil => simp
  | cons c cs =>
      rw [withReturns]
      split <;> simp

/-- A test that carriage returns fail picks the same characters. -/
theorem filter_withReturns {p : Char → Bool} (hp : p '\r' = false) (cs : List Char) :
    (withReturns cs).filter p = cs.filter p := by
  induction cs with
  | nil => rfl
  | cons c cs ih =>
      rw [withReturns]
      split
      · rename_i hc
        rw [List.filter_cons_of_neg (by simp [hp]), List.filter_cons, List.filter_cons, ih, hc]
      · rw [List.filter_cons, List.filter_cons, ih]

@[simp] theorem toList_returned (text : String) : (returned text).toList = withReturns text.toList :=
  String.toList_ofList

theorem returned_ofList (cs : List Char) : returned (String.ofList cs) = String.ofList (withReturns cs) := by
  rw [returned, String.toList_ofList]

/-! ### Offsets -/

theorem le_byteLength_withReturns (cs : List Char) : byteLength cs ≤ byteLength (withReturns cs) := by
  induction cs with
  | nil => exact Nat.le_refl _
  | cons c cs ih =>
      rw [withReturns]
      split
      · rename_i hc
        simp only [byteLength_cons, hc]
        omega
      · simp only [byteLength_cons]
        omega

@[simp] theorem returnedOffset_zero (cs : List Char) : returnedOffset cs 0 = 0 := by
  cases cs with
  | nil => rfl
  | cons c cs => exact if_pos c.utf8Size_pos

/-- Behind a first part, offsets are counted from the end of that part. -/
theorem returnedOffset_append (front back : List Char) (n : Nat) :
    returnedOffset (front ++ back) (byteLength front + n) =
      byteLength (withReturns front) + returnedOffset back n := by
  induction front with
  | nil => simp
  | cons c front ih =>
      have hbehind : ¬byteLength (c :: front) + n < c.utf8Size := by
        rw [byteLength_cons]
        omega
      have hrest : byteLength (c :: front) + n - c.utf8Size = byteLength front + n := by
        rw [byteLength_cons]
        omega
      rw [List.cons_append, returnedOffset, if_neg hbehind, hrest, ih, withReturns_singleton_append c front,
        byteLength_append, Nat.add_assoc]

/-- A place between two parts of a text is between the same two parts. -/
theorem returnedOffset_byteLength (front back : List Char) :
    returnedOffset (front ++ back) (byteLength front) = byteLength (withReturns front) := by
  have happend := returnedOffset_append front back 0
  rwa [Nat.add_zero, returnedOffset_zero, Nat.add_zero] at happend

/-- A place in a first part is where it is without what comes behind that part. -/
theorem returnedOffset_append_of_le {front : List Char} {n : Nat} (hn : n ≤ byteLength front) (back : List Char) :
    returnedOffset (front ++ back) n = returnedOffset front n := by
  induction front generalizing n with
  | nil =>
      obtain rfl := Nat.le_zero.1 hn
      rw [returnedOffset_zero, returnedOffset_zero]
  | cons c front ih =>
      rw [byteLength_cons] at hn
      rw [List.cons_append, returnedOffset, returnedOffset, ih (by omega)]

theorem strictMono_returnedOffset (cs : List Char) : StrictMono (returnedOffset cs) := by
  induction cs with
  | nil => exact strictMono_id
  | cons c cs ih =>
      intro m n hmn
      have hsize : c.utf8Size ≤ byteLength (withReturns [c]) := by
        have := le_byteLength_withReturns [c]
        rwa [byteLength_cons, byteLength_nil, Nat.add_zero] at this
      rw [returnedOffset, returnedOffset]
      split
      · split
        · exact hmn
        · omega
      · rw [if_neg (by omega)]
        exact Nat.add_lt_add_left (ih (by omega)) _

theorem returnedOffset_le_iff {cs : List Char} {m n : Nat} :
    returnedOffset cs m ≤ returnedOffset cs n ↔ m ≤ n :=
  (strictMono_returnedOffset cs).le_iff_le

theorem returnedOffset_lt_iff {cs : List Char} {m n : Nat} :
    returnedOffset cs m < returnedOffset cs n ↔ m < n :=
  (strictMono_returnedOffset cs).lt_iff_lt

theorem returnedOffset_utf8ByteSize (source : String) :
    returnedOffset source.toList source.utf8ByteSize = (returned source).utf8ByteSize := by
  have hwhole := returnedOffset_byteLength source.toList []
  rw [List.append_nil, byteLength_toList] at hwhole
  rw [hwhole, ← byteLength_toList, toList_returned]

/-! ### Cuts -/

/-- No cut lies inside the first character. -/
theorem dropBytes?_of_lt {c : Char} {n : Nat} (hn : 0 < n) (hc : n < c.utf8Size) (cs : List Char) :
    dropBytes? n (c :: cs) = none := by
  obtain ⟨n, rfl⟩ := Nat.exists_eq_add_one_of_ne_zero (Nat.ne_of_gt hn)
  rw [dropBytes?, if_neg (Nat.not_le.2 hc)]

theorem takeBytes?_of_lt {c : Char} {n : Nat} (hn : 0 < n) (hc : n < c.utf8Size) (cs : List Char) :
    takeBytes? n (c :: cs) = none := by
  obtain ⟨n, rfl⟩ := Nat.exists_eq_add_one_of_ne_zero (Nat.ne_of_gt hn)
  rw [takeBytes?, if_neg (Nat.not_le.2 hc)]

/-- Behind a first part a text is cut as if it began there. -/
theorem dropBytes?_byteLength_add (front back : List Char) (n : Nat) :
    dropBytes? (byteLength front + n) (front ++ back) = dropBytes? n back := by
  induction front with
  | nil => simp
  | cons c front ih =>
      have hpos := c.utf8Size_pos
      obtain ⟨k, hk⟩ : ∃ k, byteLength (c :: front) + n = k + 1 :=
        ⟨byteLength (c :: front) + n - 1, by rw [byteLength_cons]; omega⟩
      have hle : c.utf8Size ≤ k + 1 := by rw [← hk, byteLength_cons]; omega
      have hrest : k + 1 - c.utf8Size = byteLength front + n := by rw [← hk, byteLength_cons]; omega
      rw [hk, List.cons_append, dropBytes?, if_pos hle, hrest, ih]

theorem takeBytes?_byteLength_add (front back : List Char) (n : Nat) :
    takeBytes? (byteLength front + n) (front ++ back) = (takeBytes? n back).map (front ++ ·) := by
  induction front with
  | nil => simp
  | cons c front ih =>
      have hpos := c.utf8Size_pos
      obtain ⟨k, hk⟩ : ∃ k, byteLength (c :: front) + n = k + 1 :=
        ⟨byteLength (c :: front) + n - 1, by rw [byteLength_cons]; omega⟩
      have hle : c.utf8Size ≤ k + 1 := by rw [← hk, byteLength_cons]; omega
      have hrest : k + 1 - c.utf8Size = byteLength front + n := by rw [← hk, byteLength_cons]; omega
      rw [hk, List.cons_append, takeBytes?, if_pos hle, hrest, ih, Option.map_map]
      rfl

/-- A newline is one byte, so no offset is inside it. -/
theorem ne_newline_of_lt {c : Char} {n : Nat} (hn : 0 < n) (hc : n < c.utf8Size) : c ≠ '\n' := by
  rintro rfl
  have hsize : ('\n' : Char).utf8Size = 1 := rfl
  omega

theorem dropBytes?_returnedOffset (n : Nat) (cs : List Char) :
    dropBytes? (returnedOffset cs n) (withReturns cs) = (dropBytes? n cs).map withReturns := by
  induction cs generalizing n with
  | nil => cases n <;> rfl
  | cons c cs ih =>
      rcases Nat.eq_zero_or_pos n with rfl | hn
      · simp [dropBytes?]
      · rw [returnedOffset]
        split
        · rename_i hlt
          rw [withReturns_cons (ne_newline_of_lt hn hlt), dropBytes?_of_lt hn hlt, dropBytes?_of_lt hn hlt]
          rfl
        · rename_i hle
          have hwhole := dropBytes?_byteLength_add [c] cs (n - c.utf8Size)
          have hsize : byteLength [c] + (n - c.utf8Size) = n := by
            rw [byteLength_cons, byteLength_nil]
            omega
          rw [hsize, List.singleton_append] at hwhole
          rw [withReturns_singleton_append c cs, dropBytes?_byteLength_add, ih, hwhole]

theorem takeBytes?_returnedOffset (n : Nat) (cs : List Char) :
    takeBytes? (returnedOffset cs n) (withReturns cs) = (takeBytes? n cs).map withReturns := by
  induction cs generalizing n with
  | nil => cases n <;> rfl
  | cons c cs ih =>
      rcases Nat.eq_zero_or_pos n with rfl | hn
      · simp [takeBytes?]
      · rw [returnedOffset]
        split
        · rename_i hlt
          rw [withReturns_cons (ne_newline_of_lt hn hlt), takeBytes?_of_lt hn hlt, takeBytes?_of_lt hn hlt]
          rfl
        · rename_i hle
          have hwhole := takeBytes?_byteLength_add [c] cs (n - c.utf8Size)
          have hsize : byteLength [c] + (n - c.utf8Size) = n := by
            rw [byteLength_cons, byteLength_nil]
            omega
          rw [hsize, List.singleton_append] at hwhole
          rw [withReturns_singleton_append c cs, takeBytes?_byteLength_add, ih, hwhole, Option.map_map,
            Option.map_map]
          congr 1
          funext piece
          exact (withReturns_append [c] piece).symm

/-! ### Pieces -/

/-- The places and the pieces of a text with carriage returns. -/
def Relocation.returns (cs : List Char) : Relocation where
  offset := returnedOffset cs
  text := returned
  monotone _ _ h := returnedOffset_le_iff.2 h
  filter_text piece := by rw [toList_returned, filter_withReturns (by decide)]
  text_eq piece hpiece := by
    have hnewline : '\n' ∉ piece.toList := fun h => Bool.noConfusion (hpiece '\n' h)
    rw [returned, withReturns_eq_self hnewline, String.ofList_toList]

theorem Span.chars?_returns (span : Span) (cs : List Char) :
    ((Relocation.returns cs).span span).chars? (withReturns cs) = (span.chars? cs).map withReturns := by
  have hdrop : dropBytes? ((Relocation.returns cs).offset span.location) (withReturns cs) =
      (dropBytes? span.location cs).map withReturns := dropBytes?_returnedOffset span.location cs
  rw [Span.chars?, Span.chars?, Relocation.location_span, hdrop]
  cases hrest : dropBytes? span.location cs with
  | none => rfl
  | some rest =>
      obtain ⟨front, rfl, hfront⟩ := eq_append_of_dropBytes? hrest
      have hstop : returnedOffset (front ++ rest) span.stop =
          byteLength (withReturns front) + returnedOffset rest span.length := by
        rw [Span.stop, ← hfront, returnedOffset_append]
      have hstart : returnedOffset (front ++ rest) span.location = byteLength (withReturns front) := by
        rw [← hfront, returnedOffset_byteLength]
      have hlength : ((Relocation.returns (front ++ rest)).span span).length =
          returnedOffset rest span.length := by
        show returnedOffset (front ++ rest) span.stop - returnedOffset (front ++ rest) span.location = _
        rw [hstop, hstart, Nat.add_sub_cancel_left]
      rw [hlength]
      exact takeBytes?_returnedOffset span.length rest

/-- The text under a span is the same but for carriage returns before its newlines. -/
theorem Span.slice?_returns (span : Span) (source : String) :
    ((Relocation.returns source.toList).span span).slice? (returned source) =
      (span.slice? source).map returned := by
  rw [Span.slice?_eq, Span.slice?_eq, toList_returned, Span.chars?_returns, Option.map_map, Option.map_map]
  congr 1
  funext piece
  exact (returned_ofList piece).symm

/-! ### The lines of offsets -/

theorem count_withReturns (cs : List Char) : (withReturns cs).count '\n' = cs.count '\n' := by
  induction cs with
  | nil => rfl
  | cons c cs ih =>
      rw [withReturns]
      split
      · rename_i hc
        rw [List.count_cons_of_ne (by decide), List.count_cons, List.count_cons, ih, hc]
      · rw [List.count_cons, List.count_cons, ih]

theorem getLast?_withReturns (cs : List Char) : (withReturns cs).getLast? = cs.getLast? := by
  rcases List.eq_nil_or_concat cs with rfl | ⟨front, c, rfl⟩
  · rfl
  · rw [List.concat_eq_append, withReturns_append, List.getLast?_concat, withReturns]
    split
    · rename_i hc
      simp [hc]
    · simp

theorem offsetsAfterNewlines_withReturns (cs : List Char) :
    offsetsAfterNewlines 0 (withReturns cs) = (offsetsAfterNewlines 0 cs).map (returnedOffset cs) := by
  induction cs with
  | nil => rfl
  | cons c cs ih =>
      have hmoved : ∀ size, (offsetsAfterNewlines (0 + size) cs).map (returnedOffset cs) =
          (offsetsAfterNewlines size cs).map (returnedOffset cs) := fun size => by rw [Nat.zero_add]
      have hbehind : (offsetsAfterNewlines c.utf8Size cs).map (returnedOffset (c :: cs)) =
          offsetsAfterNewlines (byteLength (withReturns [c])) (withReturns cs) := by
        rw [← Nat.add_zero c.utf8Size, ← Nat.add_zero (byteLength _), offsetsAfterNewlines_add,
          offsetsAfterNewlines_add, ih, List.map_map, List.map_map]
        refine List.map_congr_left fun n _ => ?_
        exact returnedOffset_append [c] cs n
      by_cases hc : c = '\n'
      · subst hc
        have hfirst : returnedOffset ('\n' :: cs) ('\n' : Char).utf8Size =
            byteLength (withReturns ['\n']) := returnedOffset_byteLength ['\n'] cs
        have hsize : 0 + ('\r' : Char).utf8Size + ('\n' : Char).utf8Size =
            byteLength (withReturns ['\n']) := rfl
        rw [withReturns_newline, offsetsAfterNewlines, if_neg (by decide), offsetsAfterNewlines, if_pos rfl,
          offsetsAfterNewlines, if_pos rfl, Nat.zero_add ('\n' : Char).utf8Size, List.map_cons, hfirst,
          hbehind, hsize]
      · have hsize : byteLength (withReturns [c]) = c.utf8Size := by
          rw [withReturns_cons hc, withReturns_nil, byteLength_cons, byteLength_nil, Nat.add_zero]
        rw [withReturns_cons hc, offsetsAfterNewlines, if_neg hc, offsetsAfterNewlines, if_neg hc,
          Nat.zero_add, hbehind, hsize]

namespace LineIndex

/-- An offset is on the same line with carriage returns and without them. -/
theorem lineOf_returned (source : String) (n : Nat) :
    (ofString (returned source)).lineOf (returnedOffset source.toList n) = (ofString source).lineOf n := by
  have hzero : (0 :: offsetsAfterNewlines 0 (withReturns source.toList)) =
      (0 :: offsetsAfterNewlines 0 source.toList).map (returnedOffset source.toList) := by
    rw [List.map_cons, returnedOffset_zero, offsetsAfterNewlines_withReturns]
  rw [lineOf, lineOf, partitionPoint_starts, partitionPoint_starts, toList_returned, hzero, List.countP_map]
  congr 2
  funext start
  exact decide_eq_decide.2 returnedOffset_le_iff

end LineIndex

/-! ### Places in their lines -/

/-- The first character of a text with carriage returns. -/
theorem head?_withReturns (cs : List Char) :
    (withReturns cs).head? = cs.head?.map fun c => if c = '\n' then '\r' else c := by
  cases cs with
  | nil => rfl
  | cons c cs =>
      rw [withReturns]
      split
      · rename_i hc
        simp [hc]
      · rename_i hc
        simp [hc]

/-- A text around an offset, with carriage returns. -/
theorem IsAround.returned {source : String} {offset : Nat} {front piece more back : List Char}
    (h : IsAround source offset front piece more back) :
    ∃ more' back', IsAround (returned source) (returnedOffset source.toList offset) (withReturns front) piece
      more' back' := by
  have hplain : '\n' ∉ piece ∧ '\n' ∉ more := by
    rw [← not_or, ← List.mem_append]
    exact h.isLine.plain
  have hpiece : withReturns (front ++ piece) = withReturns front ++ piece := by
    rw [withReturns_append, withReturns_eq_self hplain.1]
  obtain ⟨more', back', hrest, hmore', hends⟩ : ∃ more' back', withReturns (more ++ back) = more' ++ back' ∧
      '\n' ∉ more' ∧ ∀ c ∈ back'.head?, c = '\n' := by
    rw [withReturns_append, withReturns_eq_self hplain.2]
    cases hback : back with
    | nil => exact ⟨more, [], rfl, hplain.2, by simp⟩
    | cons c back =>
        obtain rfl := h.isLine.ends c (by rw [hback]; rfl)
        refine ⟨more ++ ['\r'], '\n' :: withReturns back, by simp, ?_, by simp⟩
        simp [hplain.2]
  have hmin : min (returnedOffset source.toList offset) (SourceLint.returned source).utf8ByteSize =
      returnedOffset source.toList (min offset source.utf8ByteSize) := by
    have hmonotone := (strictMono_returnedOffset source.toList).monotone
    rw [← returnedOffset_utf8ByteSize, ← hmonotone.map_min]
  have hplace : ∃ k, min offset source.utf8ByteSize = byteLength (front ++ piece) + k :=
    Nat.exists_eq_add_of_le h.le
  obtain ⟨k, hk⟩ := hplace
  have hmoved : returnedOffset source.toList (min offset source.utf8ByteSize) =
      byteLength (withReturns front ++ piece) + returnedOffset (more ++ back) k := by
    rw [h.parts, hk, returnedOffset_append, hpiece]
  refine ⟨more', back', ⟨?_, ?_, ?_, hends⟩, ?_, ?_⟩
  · rw [toList_returned, h.parts, withReturns_append, hrest, hpiece]
    simp
  · rw [getLast?_withReturns]
    exact h.isLine.begins
  · rw [List.mem_append, not_or]
    exact ⟨hplain.1, hmore'⟩
  · rw [hmin, hmoved]
    exact Nat.le_add_right _ _
  · intro c hc
    rw [hmin, hmoved]
    refine Nat.add_lt_add_left ?_ _
    rw [← hrest, head?_withReturns] at hc
    obtain ⟨d, hd, rfl⟩ := Option.map_eq_some_iff.1 (Option.mem_def.1 hc)
    have hlt : k < d.utf8Size := by
      have := h.beyond d hd
      omega
    obtain ⟨rest, hcons⟩ : ∃ rest, more ++ back = d :: rest := by
      rw [List.head?_eq_some_iff] at hd
      exact hd
    rw [hcons, returnedOffset, if_pos hlt]
    split
    · rename_i hnewline
      rw [hnewline] at hlt
      exact hlt
    · exact hlt

namespace LineIndex

/-- A place has the same line and the same column with carriage returns and without them. -/
theorem position_returned (source : String) (offset : Nat) :
    (ofString (returned source)).position (returnedOffset source.toList offset) =
      (ofString source).position offset := by
  obtain ⟨front, piece, more, back, h⟩ := exists_isAround source offset
  obtain ⟨more', back', h'⟩ := h.returned
  rw [h.position, h'.position, count_withReturns]

end LineIndex

/-! ### All lines -/

/-- The line in the text with carriage returns. -/
def Line.returned (source : String) (line : Line) : Line :=
  { line with span := (Relocation.returns source.toList).span line.span }

section Lines

variable {source : String} {front line back : List Char}

/-- A line without carriage returns stands behind the front of a text as it is. -/
theorem lineBehind_eq (hline : '\r' ∉ line) : lineBehind front line =
    ⟨front.count '\n' + 1, Span.ofBounds (byteLength front) (byteLength (front ++ line)), String.ofList line⟩ := by
  have hreturn : withoutReturn line = line :=
    if_neg fun hlast => hline (List.mem_of_getLast? hlast)
  rw [lineBehind, hreturn]

/-- A carriage return at its end is left out of a line. -/
theorem lineBehind_return (front line : List Char) : lineBehind front (line ++ ['\r']) =
    ⟨front.count '\n' + 1, Span.ofBounds (byteLength front) (byteLength (front ++ line)), String.ofList line⟩ := by
  have hreturn : withoutReturn (line ++ ['\r']) = line := by
    rw [withoutReturn, if_pos List.getLast?_concat, List.dropLast_concat]
  rw [lineBehind, hreturn]

theorem IsLine.lineBehind_returned (h : IsLine source.toList front line back) (hreturn : '\r' ∉ line) :
    (⟨(withReturns front).count '\n' + 1,
      Span.ofBounds (byteLength (withReturns front)) (byteLength (withReturns front ++ line)),
      String.ofList line⟩ : Line) = (lineBehind front line).returned source := by
  have hstop : returnedOffset source.toList (byteLength (front ++ line)) =
      byteLength (withReturns front ++ line) := by
    rw [h.parts, returnedOffset_byteLength, withReturns_append, withReturns_eq_self h.plain]
  have hstart : returnedOffset source.toList (byteLength front) = byteLength (withReturns front) := by
    rw [h.parts, List.append_assoc, returnedOffset_byteLength]
  rw [lineBehind_eq hreturn, Line.returned, Relocation.span_ofBounds, count_withReturns]
  show _ = Line.mk _ (Span.ofBounds (returnedOffset _ _) (returnedOffset _ _)) _
  rw [hstart, hstop]

theorem IsLine.parts_returned (h : IsLine source.toList front line back) :
    (SourceLint.returned source).toList = withReturns front ++ line ++ withReturns back := by
  rw [toList_returned, h.parts, withReturns_append, withReturns_append, withReturns_eq_self h.plain]

end Lines

namespace Ruled

variable {source : String} {front rest rest' : List Char} {lines lines' : List Line}

/-- The lines behind a place are known from the text there. -/
theorem unique (h : Ruled source front rest lines) (h' : Ruled source front rest' lines')
    (hrest : rest = rest') : lines = lines' := by
  induction h generalizing rest' lines' with
  | @last front line hline =>
      cases h' with
      | last => rw [hrest]
      | next =>
          refine absurd ?_ hline.plain
          rw [hrest]
          exact List.mem_append_right _ List.mem_cons_self
  | @next front line back lines hline later ih =>
      cases h' with
      | last hline' =>
          refine absurd ?_ hline'.plain
          rw [← hrest]
          exact List.mem_append_right _ List.mem_cons_self
      | @next _ line' back' lines' hline' later' =>
          have hcut : ∀ line back : List Char, '\n' ∉ line →
              (line ++ '\n' :: back).takeWhile (· != '\n') = line := by
            intro line back hplain
            refine takeWhile_span (fun c hc => ?_) (by simp)
            rw [bne_iff_ne]
            rintro rfl
            exact hplain hc
          obtain rfl : line = line' := by
            rw [← hcut line back hline.plain, hrest, hcut line' back' hline'.plain]
          obtain rfl : back = back' := by simpa using hrest
          rw [ih later' rfl]

/-- The lines with carriage returns. -/
theorem returned (h : Ruled source front rest lines) (hreturn : '\r' ∉ rest) :
    Ruled (SourceLint.returned source) (withReturns front) (withReturns rest)
      (lines.map (Line.returned source)) := by
  induction h with
  | @last front line h =>
      have hbegins : ∀ c ∈ (withReturns front).getLast?, c = '\n' := by
        rw [getLast?_withReturns]
        exact h.begins
      have hline : IsLine (SourceLint.returned source).toList (withReturns front) line [] :=
        ⟨h.parts_returned, hbegins, h.plain, by simp⟩
      rw [withReturns_eq_self h.plain, List.map_singleton, ← h.lineBehind_returned hreturn,
        ← lineBehind_eq hreturn]
      exact .last hline
  | @next front line back lines h later ih =>
      rw [List.mem_append, List.mem_cons, not_or, not_or] at hreturn
      have hbegins : ∀ c ∈ (withReturns front).getLast?, c = '\n' := by
        rw [getLast?_withReturns]
        exact h.begins
      have hline : IsLine (SourceLint.returned source).toList (withReturns front) (line ++ ['\r'])
          ('\n' :: withReturns back) := by
        refine ⟨by simp [h.parts_returned], hbegins, ?_, by simp⟩
        simp [h.plain]
      have hlater := ih hreturn.2.2
      rw [withReturns_append, withReturns_append, withReturns_eq_self h.plain] at hlater
      have hwhole : withReturns (line ++ '\n' :: back) = line ++ ['\r'] ++ '\n' :: withReturns back := by
        simp [withReturns_eq_self h.plain]
      rw [hwhole, List.map_cons, ← h.lineBehind_returned hreturn.1, ← lineBehind_return]
      refine .next hline ?_
      simpa using hlater

end Ruled

/-- The lines of a text without carriage returns are the same, at their new places, with them. -/
theorem LineIndex.lines_returned {source : String} (hreturn : '\r' ∉ source.toList) :
    (ofString (returned source)).lines = (ofString source).lines.map (Line.returned source) := by
  have hlines := (ruled_lines source).returned hreturn
  rw [← toList_returned] at hlines
  exact (ruled_lines (SourceLint.returned source)).unique hlines rfl

end SourceLint
