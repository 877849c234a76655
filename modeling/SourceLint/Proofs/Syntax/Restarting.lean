import SourceLint.Proofs.Syntax.Enclosed
import SourceLint.Proofs.Syntax.LexemeOrder

/-!
# A newline is where cutting begins anew

A text that has lexemes keeps them when a newline and another text are put behind it, and the other text
is cut as if it stood alone: its lexemes, or the fault in it, are found at the same places, counted from
behind the newline.

## Implementation notes

Two things are kept apart. What is measured does not depend on where a text begins, but for the offsets in
a fault (`Moved`). And what is measured in a text that has lexemes does not change when a newline follows
the text (`measure_append_newline`), since nothing but a line comment looks at a newline, and that ends
there as it ends with the text.
-/

namespace SourceLint

/-- The span in a text with some bytes put before it. -/
def Span.shift (more : Nat) (r : Span) : Span := ⟨more + r.location, r.length⟩

/-- The error about a text with some bytes put before it. A fault of a structure is not about a text. -/
def SyntaxError.shift (more : Nat) : SyntaxError → SyntaxError
  | unterminatedString offset => unterminatedString (more + offset)
  | unterminatedComment offset => unterminatedComment (more + offset)
  | unclosed delimiter offset => unclosed delimiter (more + offset)
  | unexpected found offset => unexpected found (more + offset)
  | expected what offset => expected what (more + offset)
  | malformed fault => malformed fault

namespace Lexeme

/-! ### Measuring at another place -/

variable {α β : Type} {more : Nat}

/-- The second result is the first one with some bytes put before the text: only the places of errors
move. -/
def Moved (more : Nat) (x y : Except SyntaxError α) : Prop := y = x.mapError (SyntaxError.shift more)

namespace Moved

theorem ok (a : α) : Moved more (.ok a) (.ok a) := rfl

theorem error (e : SyntaxError) : Moved more (.error e : Except SyntaxError α) (.error (e.shift more)) :=
  rfl

theorem map {x y : Except SyntaxError α} (h : Moved more x y) (f : α → β) :
    Moved more (x.map f) (y.map f) := by
  obtain rfl := h
  cases x <;> rfl

theorem ite {c : Prop} [Decidable c] {x y x' y' : Except SyntaxError α} (h : Moved more x y)
    (h' : Moved more x' y') : Moved more (if c then x else x') (if c then y else y') := by
  split
  · exact h
  · exact h'

end Moved

/-- A string literal and an interpolation are measured in the same way wherever they stand. -/
theorem moved_tails (more n : Nat) (cs : List Char) (hn : cs.length ≤ n) :
    (∀ d start offset start' offset', start' = more + start → offset' = more + offset →
      Moved more (literalTail d start offset cs) (literalTail d start' offset' cs)) ∧
    ∀ start offset start' offset' depth, start' = more + start → offset' = more + offset →
      Moved more (interpolationTail start offset depth cs) (interpolationTail start' offset' depth cs) := by
  induction n generalizing cs with
  | zero =>
      obtain rfl := List.eq_nil_of_length_eq_zero (Nat.le_zero.1 hn)
      constructor
      · rintro d start offset _ _ rfl rfl
        rw [literalTail, literalTail]
        exact .error _
      · rintro start offset _ _ depth rfl rfl
        rw [interpolationTail, interpolationTail]
        exact .error _
  | succ n ih =>
      cases cs with
      | nil => exact ih [] (Nat.zero_le _)
      | cons c cs =>
          have hshort : ∀ k, (cs.drop k).length ≤ n := by
            intro k
            rw [List.length_drop]
            rw [List.length_cons] at hn
            omega
          have hliteral := fun k => (ih _ (hshort k)).1
          have hinterpolation := fun k => (ih _ (hshort k)).2
          constructor
          · rintro d start offset start' offset' hstart hoffset
            rw [literalTail, literalTail]
            simp only [List.drop_drop]
            refine .ite (hstart ▸ .error _) (.ite (.ite ?_ ?_) (.ite (.ok _) ?_))
            · have hinside := hinterpolation (d.hashes + 1) start (offset + 1 + d.hashes + 1) start'
                (offset' + 1 + d.hashes + 1) 0 hstart (by omega)
              rw [hinside]
              cases interpolationTail start (offset + 1 + d.hashes + 1) 0 (cs.drop (d.hashes + 1)) with
              | error e => exact .error e
              | ok k => exact (hliteral _ d _ _ _ _ hstart (by omega)).map _
            · exact (hliteral _ d _ _ _ _ hstart (by omega)).map _
            · exact (hliteral 0 d _ _ _ _ hstart (by omega)).map _
          · rintro start offset start' offset' depth hstart hoffset
            rw [interpolationTail.eq_def, interpolationTail.eq_def start']
            simp only
            refine .ite ((hinterpolation 0 _ _ _ _ _ hstart (by omega)).map _) (.ite ?_ (.ite ?_ (.ite ?_ ?_)))
            · cases depth with
              | zero => exact .ok 1
              | succ depth => exact (hinterpolation 0 _ _ _ _ _ hstart (by omega)).map _
            · have hnested := hliteral (Delimiter.atQuote 0 cs).furtherQuotes (.atQuote 0 cs) offset
                (offset + 1 + (Delimiter.atQuote 0 cs).furtherQuotes) offset'
                (offset' + 1 + (Delimiter.atQuote 0 cs).furtherQuotes) hoffset (by omega)
              rw [hnested]
              cases literalTail (.atQuote 0 cs) offset
                  (offset + 1 + (Delimiter.atQuote 0 cs).furtherQuotes)
                  (cs.drop (Delimiter.atQuote 0 cs).furtherQuotes) with
              | error e => exact .error e
              | ok k => exact (hinterpolation _ _ _ _ _ _ hstart (by omega)).map _
            · exact hstart ▸ .error _
            · exact (hinterpolation 0 _ _ _ _ _ hstart (by omega)).map _

theorem moved_literalAfterQuote (more hashes start : Nat) (cs : List Char) :
    Moved more (literalAfterQuote hashes start cs) (literalAfterQuote hashes (more + start) cs) := by
  rw [literalAfterQuote, literalAfterQuote]
  exact ((moved_tails more _ _ (Nat.le_refl _)).1 _ _ _ _ _ rfl (by omega)).map _

/-- A lexeme is measured in the same way wherever it stands. -/
theorem moved_measure (more start : Nat) (c : Char) (cs : List Char) :
    Moved more (measure start c cs) (measure (more + start) c cs) := by
  have hslash : Moved more (measureSlash start cs) (measureSlash (more + start) cs) := by
    rw [measureSlash, measureSlash]
    refine .ite (.ok _) (.ite ?_ (.ok _))
    cases blockCommentTail 0 (cs.drop 1) with
    | some n => exact .ok _
    | none => exact .error _
  have hhash : Moved more (measureHash start cs) (measureHash (more + start) cs) := by
    rw [measureHash, measureHash]
    exact .ite ((moved_literalAfterQuote more _ start _).map _) (.ite (.ok _) (.ok _))
  have hbacktick : Moved more (measureBacktick start cs) (measureBacktick (more + start) cs) := by
    rw [measureBacktick, measureBacktick]
    cases cs.findIdx? (· == '\x60') with
    | some n => exact .ok _
    | none => exact .error _
  have hquote := (moved_literalAfterQuote more 0 start cs).map fun n => (LexemeKind.token .string, n)
  rw [measure, measure]
  refine .ite hslash (.ite hquote (.ite hhash (.ite hbacktick (.ite ?_ (.ite (.ok _) (.ite ?_ ?_))))))
  · exact .ite (.ok _) (.ok _)
  · exact .ite (.ok _) (.ok _)
  · exact .ite (.ok _) (.ite (.ok _) (.ite (.ok _) (.ok _)))

/-! ### Cutting at another place -/

/-- The lexeme in a text with some bytes put before it. -/
def shift (more : Nat) (x : Lexeme) : Lexeme := { x with start := more + x.start }

/-- The lexemes with `front` put before the gap of the first one. -/
def widenGap (front : String) : List Lexeme → List Lexeme
  | [] => []
  | x :: lexemes => { x with gap := front ++ x.gap } :: lexemes

theorem widenGap_empty (lexemes : List Lexeme) : widenGap "" lexemes = lexemes := by
  cases lexemes with
  | nil => rfl
  | cons x lexemes => rw [widenGap, String.empty_append]

theorem length_widenGap (front : String) (lexemes : List Lexeme) :
    (widenGap front lexemes).length = lexemes.length := by
  cases lexemes with
  | nil => rfl
  | cons x lexemes => rfl

theorem map_shift_zero (lexemes : List Lexeme) : lexemes.map (shift 0) = lexemes := by
  have hshift : shift 0 = id := by
    funext x
    rw [shift, Nat.zero_add, id]
  rw [hshift, List.map_id]

theorem map_shift_map_shift (k n : Nat) (lexemes : List Lexeme) :
    (lexemes.map (shift n)).map (shift k) = lexemes.map (shift (k + n)) := by
  rw [List.map_map]
  refine List.map_congr_left fun x _ => ?_
  rw [Function.comp, shift, shift, shift, Nat.add_assoc]

theorem map_shift_widenGap (k : Nat) (front : String) (lexemes : List Lexeme) :
    (widenGap front lexemes).map (shift k) = widenGap front (lexemes.map (shift k)) := by
  cases lexemes with
  | nil => rfl
  | cons x lexemes => rfl

/-- Kinds and spans of lexemes. -/
def places (lexemes : List Lexeme) : List (LexemeKind × Span) := lexemes.map fun x => (x.kind, x.span)

/-- The kind and the span of a lexeme in a text with some bytes put before it. -/
def shiftPlace (more : Nat) (place : LexemeKind × Span) : LexemeKind × Span :=
  (place.1, place.2.shift more)

theorem places_widenGap (front : String) (lexemes : List Lexeme) :
    places (widenGap front lexemes) = places lexemes := by
  cases lexemes with
  | nil => rfl
  | cons x lexemes => rfl

theorem places_shift (more : Nat) (lexemes : List Lexeme) :
    places (lexemes.map (shift more)) = (places lexemes).map (shiftPlace more) := by
  rw [places, places, List.map_map, List.map_map]
  rfl

/-- Cutting goes on behind a lexeme that is measured. -/
theorem scan_of_measure {offset : Nat} {c : Char} {cs : List Char} {kind : LexemeKind} {n : Nat}
    (hlayout : ¬isLayout c = true) (h : measure offset c cs = .ok (kind, n)) (gap : String) :
    scan offset gap (c :: cs) = (scan (offset + byteLength (c :: cs.take n)) "" (cs.drop n)).map
      (⟨kind, gap, offset, String.ofList (c :: cs.take n)⟩ :: ·) := by
  rw [scan, if_neg hlayout, h]
  simp only [utf8ByteSize_ofList]
  cases scan (offset + byteLength (c :: cs.take n)) "" (cs.drop n) <;> rfl

/-- A text is cut in the same way wherever it stands. Blanks before it get before its first lexeme. -/
theorem moved_scan (more offset : Nat) (front gap : String) (cs : List Char) :
    Moved more ((scan offset gap cs).map fun lexemes => widenGap front (lexemes.map (shift more)))
      (scan (more + offset) (front ++ gap) cs) := by
  induction hlength : cs.length using Nat.strongRecOn generalizing cs offset front gap with
  | ind length ih =>
      cases cs with
      | nil =>
          rw [scan, scan]
          exact .ok []
      | cons c cs =>
          rw [List.length_cons] at hlength
          by_cases hlayout : isLayout c = true
          · have hpush : (front ++ gap).push c = front ++ gap.push c := by
              rw [String.push_eq_append, String.push_eq_append, String.append_assoc]
            rw [scan, if_pos hlayout, scan, if_pos hlayout, Nat.add_assoc, hpush]
            exact ih cs.length (by omega) _ _ _ cs rfl
          · have hmoved := moved_measure more offset c cs
            cases hmeasure : measure offset c cs with
            | error e =>
                rw [hmeasure] at hmoved
                rw [scan, if_neg hlayout, hmeasure, scan, if_neg hlayout, hmoved]
                exact .error e
            | ok measured =>
                obtain ⟨kind, n⟩ := measured
                rw [hmeasure] at hmoved
                rw [scan_of_measure hlayout hmeasure, scan_of_measure hlayout hmoved, Nat.add_assoc,
                  exceptMap_map]
                have hrest := ih (cs.drop n).length (by rw [List.length_drop]; omega)
                  (offset + byteLength (c :: cs.take n)) "" "" _ rfl
                have hboth := hrest.map
                  (⟨kind, front ++ gap, more + offset, String.ofList (c :: cs.take n)⟩ :: ·)
                simp only [exceptMap_map, widenGap_empty, String.empty_append] at hboth
                exact hboth

/-! ### Behind a newline -/

/-- A newline and what stands behind it is not visible. -/
theorem visible_append_newline (cs ds : List Char) : visible (cs ++ '\n' :: ds) = visible cs := by
  have hnewline : visible ('\n' :: ds) = visible [] := visible_of_isSeparator (by decide) ds
  rw [visible_append hnewline, List.append_nil]

/-- A lexeme is measured in the same way when a newline comes behind the text. -/
theorem measure_append_newline {start : Nat} {c : Char} {cs : List Char} {kind : LexemeKind} {n : Nat}
    (h : measure start c cs = .ok (kind, n)) (ds : List Char) :
    measure start c (cs ++ '\n' :: ds) = .ok (kind, n) := by
  cases hkind : kind.shields with
  | true =>
      obtain ⟨body, rest, rfl, -, -, hagain⟩ := measure_enclosed h hkind
      rw [List.append_assoc]
      refine hagain start _ (visible_append_newline rest ds) fun hends => ?_
      cases rest with
      | nil => simp [EndsLine]
      | cons d rest => exact hends
  | false =>
      by_cases hc : c = '\x60'
      · subst hc
        obtain ⟨name, rest, rfl, hname, rfl, rfl⟩ := exists_of_measureBacktick h
        rw [List.append_assoc, List.cons_append]
        exact measureBacktick_append hname start _
      · exact (measure_settled h hkind hc).2 start _ (visible_append_newline cs ds)

/-- The lexemes of a text are found before a newline, and behind it the text is cut on. -/
theorem scan_append_newline {offset : Nat} {gap : String} {cs : List Char} {lexemes : List Lexeme}
    (h : scan offset gap cs = .ok lexemes) (ds : List Char) :
    ∃ gap' : String, '\n' ∈ gap'.toList ∧ scan offset gap (cs ++ '\n' :: ds) =
      (scan (offset + byteLength cs + 1) gap' ds).map (lexemes ++ ·) := by
  fun_induction scan offset gap cs generalizing lexemes with
  | case1 offset gap =>
      obtain rfl := Except.ok.inj h
      refine ⟨gap.push '\n', by simp, ?_⟩
      rw [List.nil_append, scan, if_pos (by decide)]
      exact (congrFun Except.map_id _).symm
  | case2 offset gap c cs hlayout ih =>
      obtain ⟨gap', hnewline, hrest⟩ := ih h
      refine ⟨gap', hnewline, ?_⟩
      rw [List.cons_append, scan, if_pos hlayout, hrest, byteLength_cons, ← Nat.add_assoc offset]
  | case3 => cases h
  | case4 => cases h
  | case5 offset gap c cs hlayout kind n hmeasure text rest hrest =>
      rename_i ih
      obtain rfl := Except.ok.inj h
      obtain ⟨gap', hnewline, hlater⟩ := ih hrest
      have hle := le_length_of_measure hmeasure
      have htext : text.utf8ByteSize = byteLength (c :: cs.take n) := utf8ByteSize_ofList _
      have hend : offset + byteLength (c :: cs.take n) + byteLength (cs.drop n) =
          offset + byteLength (c :: cs) := by
        have := byteLength_take_add_drop n cs
        rw [byteLength_cons, byteLength_cons]
        omega
      refine ⟨gap', hnewline, ?_⟩
      rw [htext, hend] at hlater
      rw [List.cons_append, scan_of_measure hlayout (measure_append_newline hmeasure ds),
        List.take_append_of_le_length hle, List.drop_append_of_le_length hle, hlater, exceptMap_map]
      rfl

/-- The lexemes of a text stand before those of the other text that is put behind it and a newline. -/
theorem exists_ofSource_append_newline {front : String} {lexemes : List Lexeme}
    (h : ofSource front = .ok lexemes) (back : String) :
    ∃ gap : String, '\n' ∈ gap.toList ∧ ofSource (front ++ "\n" ++ back) =
      ((ofSource back).map fun more =>
        lexemes ++ widenGap gap (more.map (shift (front.utf8ByteSize + 1)))).mapError
          (SyntaxError.shift (front.utf8ByteSize + 1)) := by
  obtain ⟨gap, hnewline, hscan⟩ := scan_append_newline h back.toList
  have hjoined : (front ++ "\n" ++ back).toList = front.toList ++ '\n' :: back.toList := by
    simp [String.toList_append]
  have hback := (moved_scan (front.utf8ByteSize + 1) 0 gap "" back.toList).map (lexemes ++ ·)
  rw [exceptMap_map, Nat.add_zero, String.append_empty] at hback
  refine ⟨gap, hnewline, ?_⟩
  rw [ofSource, hjoined, hscan, Nat.zero_add, byteLength_toList, ofSource, ← hback]

/-- When a newline and another text are put behind a text that has lexemes, these lexemes are found
again, and behind them what is found in the other text, with all that stands before it put before it. -/
theorem ofSource_append_newline {front : String} {lexemes : List Lexeme}
    (h : ofSource front = .ok lexemes) (back : String) :
    (ofSource (front ++ "\n" ++ back)).map places =
      ((ofSource back).map fun more =>
        places lexemes ++ (places more).map (shiftPlace (front.utf8ByteSize + 1))).mapError
          (SyntaxError.shift (front.utf8ByteSize + 1)) := by
  obtain ⟨gap, -, hjoined⟩ := exists_ofSource_append_newline h back
  have hplaces : ∀ more, places (lexemes ++ widenGap gap (more.map (shift (front.utf8ByteSize + 1)))) =
      places lexemes ++ (places more).map (shiftPlace (front.utf8ByteSize + 1)) := by
    intro more
    rw [← places_shift, ← places_widenGap gap (more.map _), places, List.map_append, places, places]
  rw [hjoined]
  cases ofSource back with
  | error e => rfl
  | ok more => exact congrArg Except.ok (hplaces more)

/-- An operator at the end of a line does not run into the one at the beginning of the next line, and a
literal without an end is found where it begins. -/
theorem ofSource_append_newline_operators :
    ∃ lexemes, ofSource "é -" = .ok lexemes ∧
      (ofSource ("é -" ++ "\n" ++ "> 1.")).map places = .ok (places lexemes ++
        [(.punctuation, ⟨5, 1⟩), (.token .other, ⟨7, 1⟩), (.punctuation, ⟨8, 1⟩)]) ∧
      (ofSource ("é -" ++ "\n" ++ "> \"")).map places = .error (.unterminatedString 7) := by
  have hfront : ((ofSource "é -").toOption.any fun lexemes => lexemes.length == 2) = true := by
    decide +kernel
  have hback : ((ofSource "> 1.").toOption.any fun more => places more ==
      [(.punctuation, ⟨0, 1⟩), (.token .other, ⟨2, 1⟩), (.punctuation, ⟨3, 1⟩)]) = true := by
    decide +kernel
  have hopen : ofSource "> \"" = .error (.unterminatedString 2) := by decide +kernel
  obtain ⟨lexemes, hlexemes, -⟩ := exists_of_toOption_any hfront
  obtain ⟨more, hmore, hplaces⟩ := exists_of_toOption_any hback
  refine ⟨lexemes, hlexemes, ?_, ?_⟩
  · rw [ofSource_append_newline hlexemes, hmore]
    simp only [Except.map, eq_of_beq hplaces]
    rfl
  · rw [ofSource_append_newline hlexemes, hopen]
    rfl

/-! ### Without comments -/

theorem significant_map_shift (k : Nat) (gap : String) (lexemes : List Lexeme) :
    significant gap (lexemes.map (shift k)) = (significant gap lexemes).map (shift k) := by
  induction lexemes generalizing gap with
  | nil => rfl
  | cons x lexemes ih =>
      rw [List.map_cons]
      cases hx : x.isComment with
      | true =>
          rw [significant_comment hx, significant_comment (x := x.shift k) hx]
          exact ih _
      | false =>
          rw [significant_other hx, significant_other (x := x.shift k) hx, List.map_cons, ih]
          rfl

theorem significant_append (front gap : String) (lexemes : List Lexeme) :
    significant (front ++ gap) lexemes = widenGap front (significant gap lexemes) := by
  induction lexemes generalizing gap with
  | nil => rfl
  | cons x lexemes ih =>
      cases hx : x.isComment with
      | true =>
          rw [significant_comment hx, significant_comment hx, ← ih, String.append_assoc,
            String.append_assoc, String.append_assoc]
      | false =>
          rw [significant_other hx, significant_other hx, widenGap, String.append_assoc]

theorem significant_widenGap (front : String) (lexemes : List Lexeme) :
    significant "" (widenGap front lexemes) = widenGap front (significant "" lexemes) := by
  cases lexemes with
  | nil => rfl
  | cons x lexemes =>
      rw [← significant_append, String.append_empty, widenGap]
      cases hx : x.isComment with
      | true =>
          rw [significant_comment hx, significant_comment (x := { x with gap := front ++ x.gap }) hx,
            String.empty_append]
      | false =>
          rw [significant_other hx, significant_other (x := { x with gap := front ++ x.gap }) hx,
            String.empty_append]

/-- What stands before a lexeme that is no comment does not matter behind it. -/
theorem exists_significant_append {x : Lexeme} (hx : x.isComment = false) (gap : String)
    (lexemes more : List Lexeme) :
    ∃ front, significant gap (lexemes ++ x :: more) =
      significant gap lexemes ++ { x with gap := front ++ x.gap } :: significant "" more := by
  induction lexemes generalizing gap with
  | nil => exact ⟨gap, significant_other hx⟩
  | cons y lexemes ih =>
      rw [List.cons_append]
      cases hy : y.isComment with
      | true =>
          rw [significant_comment hy, significant_comment hy]
          exact ih _
      | false =>
          obtain ⟨front, hrest⟩ := ih ""
          rw [significant_other hy, significant_other hy, hrest]
          exact ⟨front, rfl⟩

/-! ### Behind a separator -/

/-- A semicolon at an offset. -/
def semicolon (gap : String) (start : Nat) : Lexeme := ⟨.punctuation, gap, start, ";"⟩

theorem ofSource_semicolon : ofSource ";" = .ok [semicolon "" 0] := by
  have hread : ((ofSource ";").toOption.any fun found => found == [semicolon "" 0]) = true := by
    decide +kernel
  obtain ⟨found, hfound, heq⟩ := exists_of_toOption_any hread
  rw [hfound, eq_of_beq heq]

/-- Behind a semicolon on a line of its own another text has its lexemes, at their new places. -/
theorem exists_ofSource_append_separated {front back : String} {lexemes more : List Lexeme}
    (hfront : ofSource front = .ok lexemes) (hback : ofSource back = .ok more) :
    ∃ before behind : String, '\n' ∈ before.toList ∧ ofSource (front ++ "\n;\n" ++ back) =
      .ok (lexemes ++ semicolon before (front.utf8ByteSize + 1) ::
        widenGap behind (more.map (shift (front.utf8ByteSize + 3)))) := by
  obtain ⟨behind, -, hlater⟩ := exists_ofSource_append_newline ofSource_semicolon back
  obtain ⟨before, hnewline, hjoined⟩ := exists_ofSource_append_newline hfront (";" ++ "\n" ++ back)
  have htext : front ++ "\n" ++ (";" ++ "\n" ++ back) = front ++ "\n;\n" ++ back := by
    simp only [String.append_assoc]
    rfl
  have hsize : ";".utf8ByteSize = 1 := by decide
  have hplaces : ∀ k, widenGap before (([semicolon "" 0] ++ widenGap behind (more.map (shift 2))).map
      (shift k)) = semicolon before k :: widenGap behind (more.map (shift (k + 2))) := by
    intro k
    rw [List.cons_append, List.nil_append, List.map_cons, map_shift_widenGap, map_shift_map_shift,
      widenGap, shift, semicolon, semicolon, String.append_empty, Nat.add_zero]
  rw [hback, hsize] at hlater
  rw [htext, hlater] at hjoined
  refine ⟨before, behind, hnewline, ?_⟩
  rw [hjoined]
  exact congrArg (fun found => Except.ok (lexemes ++ found)) (hplaces (front.utf8ByteSize + 1))

end Lexeme

end SourceLint
