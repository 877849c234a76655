import Mathlib.Data.List.Basic
import SourceLint.Proofs.Basic
import SourceLint.Proofs.Text.Searching

/-!
# The lines of a text

A text splits at its newlines. The index finds the same pieces from the offsets behind the newlines: the first
byte of a line, its end and its text. A carriage return at the end of a line is left out of the text of the line
whether a newline follows it or not, so the lines and the characters that end them are the whole text but for a
carriage return at its very end.

## Main results

* `LineIndex.map_number_lines`: the lines are numbered from 1 on.
* `LineIndex.not_mem_of_mem_lines`: no line has a newline in it.
* `LineIndex.flatMap_lines`: the lines and what ends them are the text up to its last carriage return.
* `LineIndex.map_written_lines`: the lines are those of the text, as it is written, without that carriage return.

## Implementation notes

`Ruled` is the relation behind `lines`: it names the line at the front of a text and what comes behind it, so facts
about all lines are proved by induction on it.
-/

namespace SourceLint

/-! ### One line -/

/-- A text in three parts: what comes before a line, the line, and what begins with the newline that ends it. -/
structure IsLine (cs front line back : List Char) : Prop where
  parts : cs = front ++ line ++ back
  begins : ∀ c ∈ front.getLast?, c = '\n'
  plain : '\n' ∉ line
  ends : ∀ c ∈ back.head?, c = '\n'

/-- A text is cut behind its last newline. -/
theorem exists_lastLine (cs : List Char) :
    ∃ front line, cs = front ++ line ∧ (∀ c ∈ front.getLast?, c = '\n') ∧ '\n' ∉ line := by
  obtain ⟨line, front, hcs, hline, hfront⟩ := exists_span (fun c => c != '\n') cs.reverse
  refine ⟨front.reverse, line.reverse, ?_, ?_, ?_⟩
  · rw [← List.reverse_append, ← hcs, List.reverse_reverse]
  · simpa [List.getLast?_reverse] using hfront
  · intro hnewline
    simpa using hline '\n' (List.mem_reverse.1 hnewline)

/-- A text is cut before its first newline. -/
theorem exists_firstLine (cs : List Char) :
    ∃ line back, cs = line ++ back ∧ '\n' ∉ line ∧ ∀ c ∈ back.head?, c = '\n' := by
  obtain ⟨line, back, hcs, hline, hback⟩ := exists_span (fun c => c != '\n') cs
  refine ⟨line, back, hcs, fun hnewline => ?_, by simpa using hback⟩
  simpa using hline '\n' hnewline

/-- The piece of a text in three parts that stands in the middle. -/
theorem Span.slice?_ofBounds {source : String} {front piece back : List Char}
    (hsource : source.toList = front ++ piece ++ back) :
    (Span.ofBounds (byteLength front) (byteLength (front ++ piece))).slice? source =
      some (String.ofList piece) := by
  have hlength : byteLength (front ++ piece) - byteLength front = byteLength piece := by
    rw [byteLength_append, Nat.add_sub_cancel_left]
  rw [Span.slice?_eq, Span.chars?, Span.ofBounds, hlength, hsource, List.append_assoc,
    dropBytes?_append, Option.bind_some, takeBytes?_append, Option.map_some]

namespace LineIndex

variable {source : String} {front line back : List Char}

theorem lineCount_eq (source : String) : (ofString source).lineCount = source.toList.count '\n' + 1 := by
  rw [lineCount, ofString, List.size_toArray, List.length_cons, length_offsetsAfterNewlines]

/-- Where a line begins, its first byte is found behind the starts of the lines before it. -/
theorem starts_getElem? (hsource : source.toList = front ++ back)
    (hfront : ∀ c ∈ front.getLast?, c = '\n') :
    (ofString source).starts[front.count '\n']? = some (byteLength front) := by
  rw [ofString, List.getElem?_toArray, hsource, offsetsAfterNewlines_append, Nat.zero_add]
  rcases List.eq_nil_or_concat front with rfl | ⟨before, c, rfl⟩
  · rfl
  · obtain rfl := hfront c (by simp)
    have hbefore : (offsetsAfterNewlines 0 before).length = before.count '\n' :=
      length_offsetsAfterNewlines 0 before
    simp [offsetsAfterNewlines_append, offsetsAfterNewlines, ← hbefore]

end LineIndex

namespace IsLine

variable {source : String} {front line back : List Char} (h : IsLine source.toList front line back)

include h

theorem count_front_line : (front ++ line).count '\n' = front.count '\n' := by
  rw [List.count_append, List.count_eq_zero_of_not_mem h.plain, Nat.add_zero]

theorem lineStart? :
    (LineIndex.ofString source).lineStart? (front.count '\n' + 1) = some (byteLength front) := by
  have hsource : source.toList = front ++ (line ++ back) := by rw [h.parts, List.append_assoc]
  rw [LineIndex.lineStart?, if_neg (Nat.succ_ne_zero _), Nat.add_sub_cancel]
  exact LineIndex.starts_getElem? hsource h.begins

/-- The next line begins behind the newline that ends this one. -/
theorem starts_getElem?_succ :
    (LineIndex.ofString source).starts[front.count '\n' + 1]? =
      back.head?.map fun _ => byteLength (front ++ line) + 1 := by
  cases back with
  | nil =>
      have hsize : (LineIndex.ofString source).starts.size = front.count '\n' + 1 := by
        rw [← LineIndex.lineCount, LineIndex.lineCount_eq, h.parts, List.append_nil,
          h.count_front_line]
      rw [Array.getElem?_eq_none (Nat.le_of_eq hsize)]
      rfl
  | cons c back =>
      obtain rfl := h.ends c rfl
      have hsource : source.toList = (front ++ line ++ ['\n']) ++ back := by simp [h.parts]
      have hnext := LineIndex.starts_getElem? hsource (by simp)
      have hnewline : byteLength ['\n'] = 1 := by decide
      rw [List.count_append, h.count_front_line, byteLength_append, hnewline] at hnext
      simpa using hnext

/-- A line with the newline that ends it stops where the next one begins, or at the end of the text. -/
theorem lineEnd :
    (LineIndex.ofString source).lineEnd (front.count '\n' + 1) =
      byteLength (front ++ (line ++ back.take 1)) := by
  rw [LineIndex.lineEnd, h.starts_getElem?_succ]
  cases back with
  | nil =>
      have hsource : source.toList = front ++ line := by rw [h.parts, List.append_nil]
      simp only [List.head?_nil, Option.map_none, Option.getD_none, List.take_nil, List.append_nil]
      rw [LineIndex.ofString, ← byteLength_toList, hsource]
  | cons c back =>
      obtain rfl := h.ends c rfl
      simp only [List.head?_cons, Option.map_some, Option.getD_some, List.take_succ_cons, List.take_zero,
        byteLength_append, byteLength_cons, byteLength_nil]
      have hnewline : ('\n' : Char).utf8Size = 1 := by decide
      omega

/-- A line with the newline that ends it stands between its start and its end. -/
theorem slice?_lineEnd :
    (Span.ofBounds (byteLength front)
      ((LineIndex.ofString source).lineEnd (front.count '\n' + 1))).slice? source =
      some (String.ofList (line ++ back.take 1)) := by
  have hsource : source.toList = front ++ (line ++ back.take 1) ++ back.drop 1 := by
    rw [List.append_assoc, List.append_assoc, List.take_append_drop, h.parts, List.append_assoc]
  rw [h.lineEnd]
  exact Span.slice?_ofBounds hsource

theorem lineChars :
    (LineIndex.ofString source).lineChars (front.count '\n' + 1) = line ++ back.take 1 := by
  have hslice := h.slice?_lineEnd
  rw [LineIndex.lineChars, h.lineStart?, Option.getD_some]
  change ((Span.slice? _ source).map String.toList).getD [] = _
  rw [hslice, Option.map_some, Option.getD_some, String.toList_ofList]

end IsLine

/-! ### Carriage returns -/

/-- The carriage return at the end of a text, if there is one. -/
def returnOf (cs : List Char) : List Char := if cs.getLast? = some '\r' then ['\r'] else []

/-- The text without the carriage return at its end. -/
def withoutReturn (cs : List Char) : List Char := if cs.getLast? = some '\r' then cs.dropLast else cs

theorem withoutReturn_append (cs : List Char) : withoutReturn cs ++ returnOf cs = cs := by
  rw [withoutReturn, returnOf]
  split
  · rename_i hlast
    exact List.dropLast_append_getLast? '\r' (Option.mem_def.2 hlast)
  · exact List.append_nil cs

/-- The span of a line from its start, from its end without the newline, and from the text between them. -/
theorem LineIndex.lineSpan?_eq {index : LineIndex} {number start stop : Nat} {text : String}
    (hstart : index.lineStart? number = some start)
    (hstop : (index.starts[number]?.map (· - 1)).getD index.content.utf8ByteSize = stop)
    (htext : (Span.ofBounds start stop).slice? index.content = some text) :
    index.lineSpan? number =
      some (Span.ofBounds start (if text.toList.getLast? = some '\r' then stop - 1 else stop)) := by
  simp only [lineSpan?, hstart, Option.bind_eq_bind, Option.bind_some, Option.pure_def]
  cases hnext : index.starts[number]? with
  | none =>
      obtain rfl : index.content.utf8ByteSize = stop := by rw [← hstop, hnext]; rfl
      simp only [htext, Option.bind_some]
      split
      · rename_i hlast
        rw [if_pos hlast]
      · rename_i hlast
        rw [if_neg hlast]
  | some next =>
      obtain rfl : next - 1 = stop := by rw [← hstop, hnext]; rfl
      simp only [htext, Option.bind_some]
      split
      · rename_i hlast
        rw [if_pos hlast]
      · rename_i hlast
        rw [if_neg hlast]

theorem returnOf_append {front : List Char} (hfront : ∀ c ∈ front.getLast?, c = '\n') (line : List Char) :
    returnOf (front ++ line) = returnOf line := by
  cases line with
  | nil =>
      rw [List.append_nil, returnOf, if_neg]
      · rfl
      · intro hlast
        have := hfront '\r' hlast
        contradiction
  | cons c line => rw [returnOf, returnOf, List.getLast?_append_of_ne_nil _ (List.cons_ne_nil c line)]

/-- The line that stands behind the front of a text. -/
def lineBehind (front line : List Char) : Line where
  number := front.count '\n' + 1
  span := Span.ofBounds (byteLength front) (byteLength (front ++ withoutReturn line))
  text := String.ofList (withoutReturn line)

/-- The characters that end a line at an offset: a newline with the carriage return before it, or nothing where the
text ends. -/
def terminatorAt (content : String) (offset : Nat) : List Char :=
  match dropBytes? offset content.toList with
  | some ('\r' :: '\n' :: _) => ['\r', '\n']
  | some ('\n' :: _) => ['\n']
  | _ => []

namespace IsLine

variable {source : String} {front line back : List Char} (h : IsLine source.toList front line back)

include h

theorem lineSpan? :
    (LineIndex.ofString source).lineSpan? (front.count '\n' + 1) = some (lineBehind front line).span := by
  have hstop : ((LineIndex.ofString source).starts[front.count '\n' + 1]?.map (· - 1)).getD
      source.utf8ByteSize = byteLength (front ++ line) := by
    rw [h.starts_getElem?_succ]
    cases back with
    | nil => simp [← byteLength_toList, h.parts]
    | cons c back => simp
  have hcut := congrArg byteLength (withoutReturn_append line)
  rw [byteLength_append] at hcut
  rw [LineIndex.lineSpan?_eq h.lineStart? hstop (Span.slice?_ofBounds h.parts), String.toList_ofList,
    lineBehind]
  congr 2
  split
  · rename_i hlast
    rw [returnOf, if_pos hlast] at hcut
    have hreturn : byteLength ['\r'] = 1 := by decide
    rw [byteLength_append, byteLength_append]
    omega
  · rename_i hlast
    rw [withoutReturn, if_neg hlast]

theorem parts_lineBehind :
    source.toList = front ++ withoutReturn line ++ (returnOf line ++ back) := by
  rw [List.append_assoc, ← List.append_assoc (withoutReturn line), withoutReturn_append, h.parts,
    List.append_assoc]

theorem slice?_lineBehind :
    (lineBehind front line).span.slice? source = some (lineBehind front line).text :=
  Span.slice?_ofBounds h.parts_lineBehind

theorem not_mem_lineBehind : '\n' ∉ (lineBehind front line).text.toList := by
  intro hnewline
  rw [lineBehind, String.toList_ofList] at hnewline
  apply h.plain
  rw [← withoutReturn_append line]
  exact List.mem_append_left _ hnewline

theorem dropBytes?_stop :
    dropBytes? (lineBehind front line).span.stop source.toList = some (returnOf line ++ back) := by
  have hstop : (lineBehind front line).span.stop = byteLength (front ++ withoutReturn line) :=
    Span.stop_ofBounds (by rw [byteLength_append]; exact Nat.le_add_right _ _)
  rw [hstop, h.parts_lineBehind, dropBytes?_append]

end IsLine

/-- A line that a newline ends is its text and its terminator up to that newline. -/
theorem IsLine.append_terminatorAt {source : String} {front line back : List Char}
    (h : IsLine source.toList front line ('\n' :: back)) :
    (lineBehind front line).text.toList ++ terminatorAt source (lineBehind front line).span.stop =
      line ++ ['\n'] := by
  have hterminator : terminatorAt source (lineBehind front line).span.stop = returnOf line ++ ['\n'] := by
    rw [terminatorAt, h.dropBytes?_stop, returnOf]
    by_cases hlast : line.getLast? = some '\r' <;> simp [hlast]
  rw [hterminator, lineBehind, String.toList_ofList, ← List.append_assoc, withoutReturn_append]

/-- No characters end the last line of a text. -/
theorem IsLine.terminatorAt_last {source : String} {front line : List Char}
    (h : IsLine source.toList front line []) :
    terminatorAt source (lineBehind front line).span.stop = [] := by
  rw [terminatorAt, h.dropBytes?_stop, List.append_nil, returnOf]
  by_cases hlast : line.getLast? = some '\r' <;> simp [hlast]

/-! ### All lines -/

/-- The lines are those of the rest of a text, from a place on where a line begins. -/
inductive Ruled (source : String) : List Char → List Char → List Line → Prop
  | last {front line : List Char} (h : IsLine source.toList front line []) :
      Ruled source front line [lineBehind front line]
  | next {front line back : List Char} {lines : List Line}
      (h : IsLine source.toList front line ('\n' :: back))
      (later : Ruled source (front ++ line ++ ['\n']) back lines) :
      Ruled source front (line ++ '\n' :: back) (lineBehind front line :: lines)

namespace Ruled

variable {source : String} {front rest : List Char} {lines : List Line}

theorem map_number (h : Ruled source front rest lines) :
    lines.map Line.number = List.range' (front.count '\n' + 1) (rest.count '\n' + 1) := by
  induction h with
  | last h =>
      rw [List.count_eq_zero_of_not_mem h.plain]
      rfl
  | @next front line back lines h later ih =>
      have hrest : (line ++ '\n' :: back).count '\n' = back.count '\n' + 1 := by
        rw [List.count_append, List.count_eq_zero_of_not_mem h.plain, List.count_cons_self, Nat.zero_add]
      have hfront : (front ++ line ++ ['\n']).count '\n' = front.count '\n' + 1 := by
        rw [List.count_append, h.count_front_line, List.count_singleton_self]
      rw [List.map_cons, ih, hrest, hfront, List.range'_succ]
      rfl

theorem not_mem (h : Ruled source front rest lines) : ∀ line ∈ lines, '\n' ∉ line.text.toList := by
  induction h with
  | last h => simpa using h.not_mem_lineBehind
  | next h later ih => exact List.forall_mem_cons.2 ⟨h.not_mem_lineBehind, ih⟩

theorem flatMap_append (h : Ruled source front rest lines) :
    (lines.flatMap fun line => line.text.toList ++ terminatorAt source line.span.stop) ++
      returnOf source.toList = rest := by
  induction h with
  | @last front line h =>
      have hreturn : returnOf source.toList = returnOf line := by
        rw [h.parts, List.append_nil, returnOf_append h.begins]
      rw [List.flatMap_singleton, h.terminatorAt_last, hreturn, List.append_nil, lineBehind,
        String.toList_ofList, withoutReturn_append]
  | next h later ih =>
      rw [List.flatMap_cons, h.append_terminatorAt, List.append_assoc, ih, List.append_assoc,
        List.singleton_append]

end Ruled

/-! ### Lines as they are written -/

/-- The lines of a text from its pieces between newlines, each with the offset of its first byte. A newline ends a
line together with a carriage return before it; the last line goes on to the end of the text. -/
def writtenFrom (offset : Nat) : List (List Char) → List (Nat × List Char)
  | [] => []
  | [last] => [(offset, last)]
  | piece :: next :: pieces =>
    (offset, withoutReturn piece) :: writtenFrom (offset + byteLength piece + 1) (next :: pieces)

/-- The lines of a text, each with the offset of its first byte. -/
def writtenLines (cs : List Char) : List (Nat × List Char) := writtenFrom 0 (cs.splitOn '\n')

theorem writtenFrom_cons (offset : Nat) (piece : List Char) {pieces : List (List Char)} (hpieces : pieces ≠ []) :
    writtenFrom offset (piece :: pieces) =
      (offset, withoutReturn piece) :: writtenFrom (offset + byteLength piece + 1) pieces := by
  cases pieces with
  | nil => exact absurd rfl hpieces
  | cons next pieces => rfl

theorem le_of_mem_writtenFrom {offset : Nat} {pieces : List (List Char)} :
    ∀ line ∈ writtenFrom offset pieces, offset ≤ line.1 := by
  induction pieces generalizing offset with
  | nil => simp [writtenFrom]
  | cons piece pieces ih =>
      cases pieces with
      | nil => simp [writtenFrom]
      | cons next pieces =>
          rw [writtenFrom, List.forall_mem_cons]
          refine ⟨Nat.le_refl _, fun line hline => ?_⟩
          have := ih line hline
          omega

/-- Each line starts behind the start of the line before it. -/
theorem pairwise_writtenFrom (offset : Nat) (pieces : List (List Char)) :
    (writtenFrom offset pieces).Pairwise (fun line later => line.1 < later.1) := by
  induction pieces generalizing offset with
  | nil => simp [writtenFrom]
  | cons piece pieces ih =>
      cases pieces with
      | nil => simp [writtenFrom]
      | cons next pieces =>
          rw [writtenFrom, List.pairwise_cons]
          refine ⟨fun line hline => ?_, ih _⟩
          have := le_of_mem_writtenFrom line hline
          exact Nat.lt_of_lt_of_le (by omega) this

theorem withoutReturn_append_newline (front back : List Char) :
    withoutReturn (front ++ '\n' :: back) = front ++ '\n' :: withoutReturn back := by
  cases back with
  | nil => simp [withoutReturn]
  | cons c back =>
      have hlast : (front ++ '\n' :: c :: back).getLast? = (c :: back).getLast? := by
        rw [List.getLast?_append_of_ne_nil _ (List.cons_ne_nil _ _), List.getLast?_cons_cons]
      rw [withoutReturn, withoutReturn, hlast]
      split <;> simp [List.dropLast_append_of_ne_nil]

theorem not_mem_withoutReturn {line : List Char} (hplain : '\n' ∉ line) : '\n' ∉ withoutReturn line := by
  intro hnewline
  apply hplain
  rw [← withoutReturn_append line]
  exact List.mem_append_left _ hnewline

/-- The last line of a text, with the carriage return that ends the text and without it. -/
theorem exists_lastWritten (offset : Nat) (cs : List Char) :
    ∃ front start last, writtenFrom offset (cs.splitOn '\n') = front ++ [(start, last)] ∧
      writtenFrom offset ((withoutReturn cs).splitOn '\n') = front ++ [(start, withoutReturn last)] ∧
      returnOf last = returnOf cs := by
  -- the newlines of a text are the same without its carriage return
  induction hn : cs.count '\n' generalizing offset cs with
  | zero =>
      have hplain : '\n' ∉ cs := List.count_eq_zero.1 hn
      refine ⟨[], offset, cs, ?_, ?_, rfl⟩
      · rw [List.splitOn_eq_singleton hplain]; rfl
      · rw [List.splitOn_eq_singleton (not_mem_withoutReturn hplain)]; rfl
  | succ n ih =>
      obtain ⟨line, back, rfl, hplain, hends⟩ := exists_firstLine cs
      cases back with
      | nil =>
          rw [List.append_nil, List.count_eq_zero_of_not_mem hplain] at hn
          cases hn
      | cons c back =>
          obtain rfl := hends c rfl
          have hback : back.count '\n' = n := by
            simpa [List.count_eq_zero_of_not_mem hplain] using hn
          obtain ⟨front, start, last, hwritten, hwithout, hreturn⟩ :=
            ih (offset + byteLength line + 1) back hback
          refine ⟨(offset, withoutReturn line) :: front, start, last, ?_, ?_, ?_⟩
          · rw [List.splitOn_append_cons_self_of_not_mem hplain,
              writtenFrom_cons _ _ (List.splitOn_ne_nil _ _), hwritten, List.cons_append]
          · rw [withoutReturn_append_newline, List.splitOn_append_cons_self_of_not_mem hplain,
              writtenFrom_cons _ _ (List.splitOn_ne_nil _ _), hwithout, List.cons_append]
          · rw [hreturn, ← List.singleton_append, ← List.append_assoc, returnOf_append (by simp)]

theorem Ruled.map_written {source : String} {front rest : List Char} {lines : List Line}
    (h : Ruled source front rest lines) :
    lines.map (fun line => (line.span.location, line.text.toList)) =
      writtenFrom (byteLength front) ((withoutReturn rest).splitOn '\n') := by
  induction h with
  | last h =>
      rw [List.splitOn_eq_singleton (not_mem_withoutReturn h.plain)]
      simp [lineBehind, Span.ofBounds, writtenFrom]
  | @next front line back lines h later ih =>
      have hnewline : byteLength ['\n'] = 1 := by decide
      rw [withoutReturn_append_newline, List.splitOn_append_cons_self_of_not_mem h.plain,
        writtenFrom_cons _ _ (List.splitOn_ne_nil _ _), List.map_cons, ih, byteLength_append,
        byteLength_append, hnewline]
      simp [lineBehind, Span.ofBounds]

namespace LineIndex

variable {source : String}

/-- The line with a number, as the list of all lines has it. -/
def line? (index : LineIndex) (number : Nat) : Option Line := do
  let span ← index.lineSpan? number
  let text ← span.slice? index.content
  return ⟨number, span, text⟩

theorem lines_eq (index : LineIndex) :
    index.lines = (List.range' 1 index.lineCount).filterMap index.line? := rfl

theorem line?_eq {front line back : List Char} (h : IsLine source.toList front line back) :
    (ofString source).line? (front.count '\n' + 1) = some (lineBehind front line) := by
  have htext : (lineBehind front line).span.slice? (ofString source).content =
      some (lineBehind front line).text := h.slice?_lineBehind
  simp only [line?, Option.bind_eq_bind, Option.pure_def, h.lineSpan?, Option.bind_some, htext]
  rfl

/-- From a place on where a line begins, the index finds the lines of the rest of the text. -/
theorem ruled_filterMap {front rest : List Char} (hsource : source.toList = front ++ rest)
    (hfront : ∀ c ∈ front.getLast?, c = '\n') :
    Ruled source front rest ((List.range' (front.count '\n' + 1) (rest.count '\n' + 1)).filterMap
      (ofString source).line?) := by
  -- the rest has one newline less behind its first line
  induction hn : rest.count '\n' generalizing front rest with
  | zero =>
      have hplain : '\n' ∉ rest := List.count_eq_zero.1 hn
      have hline : IsLine source.toList front rest [] := ⟨by simpa using hsource, hfront, hplain, by simp⟩
      simpa [line?_eq hline] using Ruled.last hline
  | succ n ih =>
      obtain ⟨line, back, rfl, hplain, hends⟩ := exists_firstLine rest
      cases back with
      | nil =>
          rw [List.append_nil, List.count_eq_zero_of_not_mem hplain] at hn
          cases hn
      | cons c back =>
          obtain rfl := hends c rfl
          have hline : IsLine source.toList front line ('\n' :: back) :=
            ⟨by rw [hsource, List.append_assoc], hfront, hplain, hends⟩
          have hback : back.count '\n' = n := by
            simpa [List.count_eq_zero_of_not_mem hplain] using hn
          have hrest : source.toList = (front ++ line ++ ['\n']) ++ back := by simp [hline.parts]
          have hlater := ih hrest (by simp) hback
          rw [List.count_append, hline.count_front_line, List.count_singleton_self] at hlater
          rw [List.range'_succ, List.filterMap_cons, line?_eq hline]
          exact .next hline hlater

theorem ruled_lines (source : String) : Ruled source [] source.toList (ofString source).lines := by
  rw [lines_eq, lineCount_eq]
  exact ruled_filterMap rfl (by simp)

/-- The lines are numbered from 1 on, and there are as many as the index counts. -/
theorem map_number_lines (source : String) :
    (ofString source).lines.map Line.number = List.range' 1 (ofString source).lineCount := by
  rw [(ruled_lines source).map_number, lineCount_eq]
  rfl

theorem not_mem_of_mem_lines (source : String) :
    ∀ line ∈ (ofString source).lines, '\n' ∉ line.text.toList :=
  (ruled_lines source).not_mem

/-- The lines with the characters that end them are the text, but for a carriage return at its end. -/
theorem flatMap_lines (source : String) :
    ((ofString source).lines.flatMap fun line => line.text.toList ++ terminatorAt source line.span.stop) ++
      returnOf source.toList = source.toList :=
  (ruled_lines source).flatMap_append

/-- The lines with the characters that end them are the text exactly when no carriage return ends it. -/
theorem flatMap_lines_eq_iff (source : String) :
    ((ofString source).lines.flatMap fun line => line.text.toList ++ terminatorAt source line.span.stop) =
      source.toList ↔ source.toList.getLast? ≠ some '\r' := by
  have hlines := flatMap_lines source
  have hreturn : returnOf source.toList = [] ↔ source.toList.getLast? ≠ some '\r' := by
    rw [returnOf]
    split <;> simp_all
  rw [← hreturn]
  constructor
  · intro heq
    rw [heq] at hlines
    exact List.append_right_eq_self.1 hlines
  · intro hnil
    rwa [hnil, List.append_nil] at hlines

/-- The lines that the index finds are those of the text without a carriage return at its end. -/
theorem map_written_lines (source : String) :
    (ofString source).lines.map (fun line => (line.span.location, line.text.toList)) =
      writtenLines (withoutReturn source.toList) :=
  (ruled_lines source).map_written

/-- Each line begins behind the start of the line before it. -/
theorem pairwise_location_lines (source : String) :
    ((ofString source).lines.map fun line => line.span.location).Pairwise (· < ·) := by
  have hwritten := pairwise_writtenFrom 0 ((withoutReturn source.toList).splitOn '\n')
  rw [← writtenLines, ← map_written_lines, List.pairwise_map] at hwritten
  exact List.pairwise_map.2 hwritten

/-- A carriage return at the end of a text is in no line, and no characters end the line before it. -/
theorem lines_return : (ofString "a\r").lines = [⟨1, ⟨0, 1⟩, "a"⟩] ∧ terminatorAt "a\r" 1 = [] := by
  decide +kernel

end LineIndex

end SourceLint
