import Mathlib.Data.List.Chain
import SourceLint.Proofs.Correction.Splicing
import SourceLint.Proofs.Syntax.Enclosed
import SourceLint.Proofs.Syntax.LexemeOrder
import SourceLint.Proofs.Text.Searching
import SourceLint.Suppression

/-!
# Texts with marks

What rules about characters ask of a source text is, for each character, on which line it stands and
whether it lies in a comment or in a string literal. A text is marked with these two answers while it is
cut into lexemes. The binary searches over tokens and lines then read the marks back, and directives
depend on nothing but the texts of the comments and the lines where these begin.

## Implementation notes

`Shading` follows the recursion of `Lexeme.scan`, one constructor for each of its steps that succeed. It
says where a text is cut and marks the characters at the same time, so that a statement on marks is
proved by induction on how the text is cut.
-/

namespace SourceLint

/-- A character with the line on which it stands. It is shielded when it lies in a comment or in a
string literal. -/
structure Mark where
  char : Char
  line : Nat
  shielded : Bool
deriving DecidableEq, Repr

namespace Mark

/-- The text under some marks. -/
def chars (marks : List Mark) : List Char := marks.map Mark.char

/-- The line behind a character. -/
def lineAfter (line : Nat) (c : Char) : Nat := if c = '\n' then line + 1 else line

/-- A text with marks, from a line on. -/
def ofChars (shielded : Bool) (line : Nat) : List Char → List Mark
  | [] => []
  | c :: cs => ⟨c, line, shielded⟩ :: ofChars shielded (lineAfter line c) cs

@[simp] theorem chars_nil : chars [] = [] := rfl

@[simp] theorem chars_cons (m : Mark) (marks : List Mark) :
    chars (m :: marks) = m.char :: chars marks := rfl

@[simp] theorem chars_append (marks more : List Mark) :
    chars (marks ++ more) = chars marks ++ chars more :=
  List.map_append

@[simp] theorem chars_ofChars (shielded : Bool) (line : Nat) (cs : List Char) :
    chars (ofChars shielded line cs) = cs := by
  induction cs generalizing line with
  | nil => rfl
  | cons c cs ih => rw [ofChars, chars_cons, ih]

theorem length_ofChars (shielded : Bool) (line : Nat) (cs : List Char) :
    (ofChars shielded line cs).length = cs.length := by
  rw [← List.length_map Mark.char]
  exact congrArg List.length (chars_ofChars shielded line cs)

theorem lineAfter_add_count (line : Nat) (c : Char) (cs : List Char) :
    lineAfter line c + cs.count '\n' = line + (c :: cs).count '\n' := by
  rw [List.count_cons]
  by_cases hc : c = '\n'
  · simp [lineAfter, hc]
    omega
  · simp [lineAfter, hc]

theorem ofChars_append (shielded : Bool) (line : Nat) (cs ds : List Char) :
    ofChars shielded line (cs ++ ds) =
      ofChars shielded line cs ++ ofChars shielded (line + cs.count '\n') ds := by
  induction cs generalizing line with
  | nil => simp [ofChars]
  | cons c cs ih =>
      rw [List.cons_append, ofChars, ofChars, ih, lineAfter_add_count, List.cons_append]

theorem shielded_of_mem_ofChars {shielded : Bool} {line : Nat} {cs : List Char} {m : Mark}
    (h : m ∈ ofChars shielded line cs) : m.shielded = shielded := by
  induction cs generalizing line with
  | nil => simp [ofChars] at h
  | cons c cs ih =>
      rcases List.mem_cons.1 h with rfl | h
      · rfl
      · exact ih h

end Mark

/-- A lexeme with the line on which it begins. -/
abbrev PlacedLexeme := Nat × Lexeme

open Mark in
/-- A text that begins at an offset, behind the blanks `gap`, and on a line is cut into lexemes. The
marks say which of its characters are shielded. -/
inductive Shading : Nat → String → Nat → List Mark → List PlacedLexeme → Prop
  | done (offset : Nat) (gap : String) (line : Nat) : Shading offset gap line [] []
  | blank {offset line : Nat} {gap : String} {c : Char} {marks : List Mark}
      {placed : List PlacedLexeme} (layout : Lexeme.isLayout c = true)
      (later : Shading (offset + c.utf8Size) (gap.push c) (lineAfter line c) marks placed) :
      Shading offset gap line (⟨c, line, false⟩ :: marks) placed
  | lexeme {offset line : Nat} {gap : String} {c : Char} {body : List Char} {kind : LexemeKind}
      {marks : List Mark} {placed : List PlacedLexeme} (layout : Lexeme.isLayout c = false)
      (measured : Lexeme.measure offset c (body ++ chars marks) = .ok (kind, body.length))
      (later : Shading (offset + byteLength (c :: body)) "" (line + (c :: body).count '\n') marks
        placed) :
      Shading offset gap line (ofChars kind.shields line (c :: body) ++ marks)
        ((line, ⟨kind, gap, offset, String.ofList (c :: body)⟩) :: placed)

namespace Shading

open Mark

variable {offset line : Nat} {gap : String} {marks : List Mark} {placed : List PlacedLexeme}

/-- A text that is cut into lexemes can be marked. -/
theorem exists_of_scan {cs : List Char} {lexemes : List Lexeme} (line : Nat)
    (h : Lexeme.scan offset gap cs = .ok lexemes) :
    ∃ marks placed, Shading offset gap line marks placed ∧ chars marks = cs ∧
      placed.map Prod.snd = lexemes := by
  fun_induction Lexeme.scan offset gap cs generalizing lexemes line with
  | case1 offset gap =>
      obtain rfl := Except.ok.inj h
      exact ⟨[], [], .done _ _ _, rfl, rfl⟩
  | case2 offset gap c cs hlayout ih =>
      obtain ⟨marks, placed, hshading, rfl, hplaced⟩ := ih (lineAfter line c) h
      exact ⟨⟨c, line, false⟩ :: marks, placed, .blank hlayout hshading, rfl, hplaced⟩
  | case3 => cases h
  | case4 => cases h
  | case5 offset gap c cs hlayout kind n hmeasure text rest hrest =>
      rename_i ih
      obtain rfl := Except.ok.inj h
      have hsize : text.utf8ByteSize = byteLength (c :: cs.take n) := Lexeme.utf8ByteSize_ofList _
      have hlength : (cs.take n).length = n :=
        List.length_take_of_le (Lexeme.le_length_of_measure hmeasure)
      obtain ⟨marks, placed, hshading, hchars, hplaced⟩ :=
        ih (line + (c :: cs.take n).count '\n') hrest
      rw [hsize] at hshading
      have hwhole : cs.take n ++ chars marks = cs := by rw [hchars, List.take_append_drop]
      have hmeasured : Lexeme.measure offset c (cs.take n ++ chars marks) =
          .ok (kind, (cs.take n).length) := by
        rw [hwhole, hlength, hmeasure]
      refine ⟨_, _, .lexeme (by simpa using hlayout) hmeasured hshading, ?_, ?_⟩
      · rw [chars_append, chars_ofChars, List.cons_append, hwhole]
      · rw [List.map_cons, hplaced]

/-- A marked text is cut into the lexemes that the marks come from. -/
theorem scan_eq (h : Shading offset gap line marks placed) :
    Lexeme.scan offset gap (chars marks) = .ok (placed.map Prod.snd) := by
  induction h with
  | done => rw [chars_nil, Lexeme.scan]; rfl
  | blank layout later ih =>
      rw [chars_cons, Lexeme.scan, if_pos layout, ih]
  | @lexeme offset line gap c body kind marks placed layout measured later ih =>
      rw [chars_append, chars_ofChars, List.cons_append, Lexeme.scan, if_neg (by simp [layout]),
        measured]
      simp only [List.take_left, List.drop_left, Lexeme.utf8ByteSize_ofList, ih]
      rfl

/-! ### Lines -/

/-- The lines of the marks follow the newlines, from a line on. -/
def LinesFrom : Nat → List Mark → Prop
  | _, [] => True
  | line, m :: marks => m.line = line ∧ LinesFrom (lineAfter line m.char) marks

theorem LinesFrom.ofChars_append {shielded : Bool} {cs : List Char}
    (h : LinesFrom (line + cs.count '\n') marks) :
    LinesFrom line (ofChars shielded line cs ++ marks) := by
  induction cs generalizing line with
  | nil => exact h
  | cons c cs ih =>
      rw [← lineAfter_add_count] at h
      exact ⟨rfl, ih h⟩

theorem linesFrom (h : Shading offset gap line marks placed) : LinesFrom line marks := by
  induction h with
  | done => trivial
  | blank layout later ih => exact ⟨rfl, ih⟩
  | lexeme layout measured later ih => exact .ofChars_append ih

theorem LinesFrom.append_iff {front back : List Mark} :
    LinesFrom line (front ++ back) ↔
      LinesFrom line front ∧ LinesFrom (line + (chars front).count '\n') back := by
  induction front generalizing line with
  | nil => simp [LinesFrom]
  | cons m front ih =>
      rw [List.cons_append, LinesFrom, LinesFrom, ih, chars_cons, lineAfter_add_count, and_assoc]

/-- Marks with the right lines that are all shielded or all not are those of their text. -/
theorem LinesFrom.eq_ofChars {shielded : Bool} (h : LinesFrom line marks)
    (hshielded : ∀ m ∈ marks, m.shielded = shielded) : marks = ofChars shielded line (chars marks) := by
  induction marks generalizing line with
  | nil => rfl
  | cons m marks ih =>
      obtain ⟨char, mline, mshielded⟩ := m
      obtain ⟨rfl, hrest⟩ := h
      obtain rfl := hshielded _ List.mem_cons_self
      rw [chars_cons, ofChars, ← ih hrest fun d hd => hshielded d (List.mem_cons_of_mem _ hd)]

theorem LinesFrom.behind {front back : List Mark} {m : Mark}
    (h : LinesFrom line (front ++ m :: back)) : LinesFrom (lineAfter m.line m.char) back := by
  obtain ⟨-, hline, hback⟩ := LinesFrom.append_iff.1 h
  rwa [hline]

/-- The line of a mark counts the newlines before it. -/
theorem LinesFrom.line_eq {front back : List Mark} {m : Mark}
    (h : LinesFrom line (front ++ m :: back)) : m.line = line + (chars front).count '\n' := by
  induction front generalizing line with
  | nil => exact h.1
  | cons first front ih =>
      rw [chars_cons, ← lineAfter_add_count]
      exact ih h.2

/-! ### Lexemes -/

/-- Lexemes begin within the text. -/
theorem offset_le_start {x : PlacedLexeme} (h : Shading offset gap line marks placed)
    (hx : x ∈ placed) : offset ≤ x.2.start := by
  induction h with
  | done => simp at hx
  | blank layout later ih => exact Nat.le_trans (Nat.le_add_right _ _) (ih hx)
  | @lexeme offset line gap c body kind marks placed layout measured later ih =>
      rcases List.mem_cons.1 hx with rfl | hx
      · exact Nat.le_refl _
      · exact Nat.le_trans (Nat.le_add_right _ _) (ih hx)

/-- A lexeme is a piece of the text; its line is that of its first character. -/
theorem exists_piece {x : PlacedLexeme} (h : Shading offset gap line marks placed)
    (hx : x ∈ placed) :
    ∃ front c body back, marks = front ++ ofChars x.2.kind.shields x.1 (c :: body) ++ back ∧
      x.2.start = offset + byteLength (chars front) ∧ x.2.text = String.ofList (c :: body) ∧
      x.1 = line + (chars front).count '\n' := by
  induction h with
  | done => simp at hx
  | @blank offset line gap c marks placed layout later ih =>
      obtain ⟨front, e, body, back, rfl, hstart, htext, hline⟩ := ih hx
      refine ⟨⟨c, line, false⟩ :: front, e, body, back, rfl, ?_, htext, ?_⟩
      · rw [hstart, chars_cons, byteLength_cons, Nat.add_assoc]
      · rw [hline, lineAfter_add_count, chars_cons]
  | @lexeme offset line gap c body kind marks placed layout measured later ih =>
      rcases List.mem_cons.1 hx with rfl | hx
      · exact ⟨[], c, body, marks, rfl, rfl, rfl, rfl⟩
      · obtain ⟨front, e, piece, back, rfl, hstart, htext, hline⟩ := ih hx
        refine ⟨ofChars kind.shields line (c :: body) ++ front, e, piece, back, by simp, ?_, htext, ?_⟩
        · rw [hstart, chars_append, chars_ofChars, byteLength_append, Nat.add_assoc]
        · rw [hline, chars_append, chars_ofChars, List.count_append, Nat.add_assoc]

/-- A lexeme is the piece of the text that is measured where it begins. -/
theorem exists_measured {x : PlacedLexeme} (h : Shading offset gap line marks placed) (hx : x ∈ placed) :
    ∃ front c body back, marks = front ++ ofChars x.2.kind.shields x.1 (c :: body) ++ back ∧
      x.2.start = offset + byteLength (chars front) ∧ x.2.text = String.ofList (c :: body) ∧
      Lexeme.isLayout c = false ∧
      Lexeme.measure x.2.start c (body ++ chars back) = .ok (x.2.kind, body.length) := by
  induction h with
  | done => simp at hx
  | @blank offset line gap c marks placed layout later ih =>
      obtain ⟨front, e, body, back, rfl, hstart, hrest⟩ := ih hx
      refine ⟨⟨c, line, false⟩ :: front, e, body, back, rfl, ?_, hrest⟩
      rw [hstart, chars_cons, byteLength_cons, Nat.add_assoc]
  | @lexeme offset line gap c body kind marks placed layout measured later ih =>
      rcases List.mem_cons.1 hx with rfl | hx
      · exact ⟨[], c, body, marks, rfl, rfl, rfl, layout, measured⟩
      · obtain ⟨front, e, piece, back, rfl, hstart, hrest⟩ := ih hx
        refine ⟨ofChars kind.shields line (c :: body) ++ front, e, piece, back, by simp, ?_, hrest⟩
        rw [hstart, chars_append, chars_ofChars, byteLength_append, Nat.add_assoc]

/-- An element of a list in two parts stands in the second part or in the first one. -/
theorem append_cons_eq_append {α : Type _} {front back first second : List α} {a : α}
    (h : front ++ a :: back = first ++ second) :
    (∃ between, front = first ++ between ∧ between ++ a :: back = second) ∨
      ∃ inside, first = front ++ a :: inside := by
  rcases List.append_eq_append_iff.1 h.symm with ⟨between, hfront, hrest⟩ | ⟨inside, hfirst, hrest⟩
  · exact .inl ⟨between, hfront, hrest.symm⟩
  · cases inside with
    | nil => exact .inl ⟨[], by rw [hfirst, List.append_nil, List.append_nil], hrest⟩
    | cons b inside =>
        obtain ⟨rfl, -⟩ := List.cons.inj hrest
        exact .inr ⟨inside, hfirst⟩

/-- An offset behind a lexeme lies in a comment or in a string literal when it does so among the others. -/
theorem exists_shields_cons_of_stop_le {x : PlacedLexeme} {o : Nat} (h : x.2.stop ≤ o) :
    (∃ y ∈ x :: placed, y.2.kind.shields = true ∧ y.2.start ≤ o ∧ o < y.2.stop) ↔
      ∃ y ∈ placed, y.2.kind.shields = true ∧ y.2.start ≤ o ∧ o < y.2.stop := by
  constructor
  · rintro ⟨y, hy, hkind, hstart, hlt⟩
    rcases List.mem_cons.1 hy with rfl | hy
    · exact absurd h (Nat.not_le_of_lt hlt)
    · exact ⟨y, hy, hkind, hstart, hlt⟩
  · rintro ⟨y, hy, hrange⟩
    exact ⟨y, List.mem_cons_of_mem _ hy, hrange⟩

/-- An offset in a lexeme lies in a comment or in a string literal when the lexeme is one. -/
theorem exists_shields_cons_of_lt_stop {x : PlacedLexeme} {o : Nat} (hstart : x.2.start ≤ o)
    (hlt : o < x.2.stop) (hlater : ∀ y ∈ placed, x.2.stop ≤ y.2.start) :
    (∃ y ∈ x :: placed, y.2.kind.shields = true ∧ y.2.start ≤ o ∧ o < y.2.stop) ↔
      x.2.kind.shields = true := by
  constructor
  · rintro ⟨y, hy, hkind, hbegin, -⟩
    rcases List.mem_cons.1 hy with rfl | hy
    · exact hkind
    · exact absurd (Nat.le_trans (hlater y hy) hbegin) (Nat.not_le_of_lt hlt)
  · intro hkind
    exact ⟨x, List.mem_cons_self, hkind, hstart, hlt⟩

/-- A character is shielded when it lies in a comment or in a string literal. -/
theorem shielded_iff {front back : List Mark} {m : Mark}
    (h : Shading offset gap line (front ++ m :: back) placed) :
    m.shielded = true ↔ ∃ x ∈ placed, x.2.kind.shields = true ∧
      x.2.start ≤ offset + byteLength (chars front) ∧
      offset + byteLength (chars front) < x.2.stop := by
  generalize hmarks : front ++ m :: back = marks at h
  induction h generalizing front with
  | done => simp at hmarks
  | @blank offset line gap c marks placed layout later ih =>
      cases front with
      | nil =>
          obtain ⟨rfl, rfl⟩ := List.cons.inj hmarks
          refine ⟨fun h => Bool.noConfusion h, ?_⟩
          rintro ⟨x, hx, -, hstart, -⟩
          have := later.offset_le_start hx
          have := c.utf8Size_pos
          rw [chars_nil, byteLength_nil] at hstart
          omega
      | cons first front =>
          obtain ⟨rfl, hrest⟩ := List.cons.inj hmarks
          have hm := ih hrest
          rw [Nat.add_assoc, ← byteLength_cons] at hm
          exact hm
  | @lexeme offset line gap c body kind marks placed layout measured later ih =>
      let lexeme : PlacedLexeme := (line, ⟨kind, gap, offset, String.ofList (c :: body)⟩)
      have hstop : lexeme.2.stop = offset + byteLength (c :: body) := by
        rw [Lexeme.stop, Lexeme.utf8ByteSize_ofList]
      rcases append_cons_eq_append hmarks with ⟨between, rfl, hrest⟩ | ⟨inside, hlexeme⟩
      · rw [exists_shields_cons_of_stop_le, chars_append, chars_ofChars, byteLength_append,
          ← Nat.add_assoc, ih hrest]
        rw [hstop, chars_append, chars_ofChars, byteLength_append]
        exact Nat.add_le_add_left (Nat.le_add_right _ _) _
      · have hm : m.shielded = kind.shields :=
          shielded_of_mem_ofChars (hlexeme ▸ List.mem_append_right _ List.mem_cons_self)
        have hlength := congrArg (fun marks => byteLength (chars marks)) hlexeme
        simp only [chars_ofChars, chars_append, chars_cons, byteLength_append, byteLength_cons m.char]
          at hlength
        have hpos := m.char.utf8Size_pos
        rw [hm]
        have hlt : offset + byteLength (chars front) < lexeme.2.stop := by
          rw [hstop]
          omega
        have hlater : ∀ y ∈ placed, lexeme.2.stop ≤ y.2.start := by
          rw [hstop]
          exact fun y hy => later.offset_le_start hy
        exact (exists_shields_cons_of_lt_stop (Nat.le_add_right _ _) hlt hlater).symm

/-! ### Borders of comments and string literals -/

/-- The first mark of a text is shielded only if a comment or a string literal begins there. -/
theorem isSeparator_head {m : Mark} (h : Shading offset gap line (m :: marks) placed)
    (hm : m.shielded = true) : Lexeme.isSeparator m.char = false := by
  generalize hmarks : m :: marks = whole at h
  cases h with
  | done => cases hmarks
  | blank layout later =>
      obtain ⟨rfl, -⟩ := List.cons.inj hmarks
      cases hm
  | lexeme layout measured later =>
      obtain ⟨rfl, -⟩ := List.cons.inj hmarks
      rcases Lexeme.first_of_shields measured hm with rfl | rfl | rfl
      · rfl
      · rfl
      · rfl

/-- Where a comment or a string literal begins, its first character is no separator. Where it ends, its
last character is no separator either, unless the line ends there. -/
structure Borders (m d : Mark) : Prop where
  begins : m.shielded = false → d.shielded = true → Lexeme.isSeparator d.char = false
  ends : m.shielded = true → d.shielded = false → Lexeme.isSeparator m.char = true → d.char = '\n'

theorem isChain_ofChars (shielded : Bool) (line : Nat) (cs : List Char) :
    (ofChars shielded line cs).IsChain Borders := by
  induction cs generalizing line with
  | nil => exact .nil
  | cons c cs ih =>
      refine List.isChain_cons.2 ⟨fun d hd => ?_, ih _⟩
      have hshielded := shielded_of_mem_ofChars (List.mem_of_mem_head? hd)
      constructor
      · intro hm hd
        cases hm.symm.trans (hshielded.symm.trans hd)
      · intro hm hd
        cases hm.symm.trans (hshielded.symm.trans hd)

theorem isChain_borders (h : Shading offset gap line marks placed) : marks.IsChain Borders := by
  induction h with
  | done => exact .nil
  | @blank offset line gap c marks placed layout later ih =>
      refine List.isChain_cons.2 ⟨fun d hd => ⟨fun _ hshielded => ?_, fun hm => by cases hm⟩, ih⟩
      obtain ⟨rest, rfl⟩ := List.head?_eq_some_iff.1 hd
      exact later.isSeparator_head hshielded
  | @lexeme offset line gap c body kind marks placed layout measured later ih =>
      refine List.isChain_append.2 ⟨isChain_ofChars _ _ _, ih, ?_⟩
      intro m hm d hd
      obtain ⟨rest, rfl⟩ := List.head?_eq_some_iff.1 hd
      have hshielded : m.shielded = kind.shields :=
        shielded_of_mem_ofChars (List.mem_of_getLast? hm)
      constructor
      · intro _ hd
        exact later.isSeparator_head hd
      · intro hm' _ hseparator
        obtain ⟨front, behind, hsplit, hlength, hends, -⟩ :=
          Lexeme.measure_enclosed measured (hshielded.symm.trans hm')
        obtain ⟨rfl, rfl⟩ := List.append_inj hsplit hlength.symm
        rcases hends with hends | ⟨before, e, rfl, he⟩
        · exact hends _ rfl
        · have hlast : m.char = e := by
            have hchars := congrArg List.getLast?
              (chars_ofChars kind.shields line (c :: (before ++ [e])))
            rw [chars, List.getLast?_map, hm, ← List.cons_append, List.getLast?_append] at hchars
            simpa using hchars
          rw [hlast, he] at hseparator
          cases hseparator

/-- Separators before an unshielded mark are not shielded, as long as the line does not end among them. -/
theorem unshielded_before {front : List Mark} {m : Mark} (h : (front ++ m :: marks).IsChain Borders)
    (hm : m.shielded = false) (hchar : m.char ≠ '\n')
    (hfront : ∀ d ∈ front, Lexeme.isSeparator d.char = true ∧ d.char ≠ '\n') :
    ∀ d ∈ front, d.shielded = false := by
  induction front with
  | nil => simp
  | cons d front ih =>
      obtain ⟨hnext, hchain⟩ := List.isChain_cons.1 h
      have hrest := ih hchain fun e he => hfront e (List.mem_cons_of_mem _ he)
      have hseparator := (hfront d List.mem_cons_self).1
      have hd : d.shielded = false := by
        rw [Bool.eq_false_iff]
        intro hd
        cases front with
        | nil => exact hchar ((hnext m rfl).ends hd hm hseparator)
        | cons e front =>
            have he := hfront e (by simp)
            exact he.2 ((hnext e rfl).ends hd (hrest e List.mem_cons_self) hseparator)
      intro e he
      rcases List.mem_cons.1 he with rfl | he
      · exact hd
      · exact hrest e he

/-! ### Tokens -/

/-- The tokens of some lexemes. -/
def tokens (placed : List PlacedLexeme) : List Token := placed.filterMap fun x => x.2.token?

theorem mem_tokens_iff {placed : List PlacedLexeme} {t : Token} :
    t ∈ tokens placed ↔ ∃ x ∈ placed, x.2.kind = .token t.kind ∧ x.2.span = t.span := by
  rw [tokens, List.mem_filterMap]
  constructor
  · rintro ⟨x, hx, ht⟩
    refine ⟨x, hx, ?_⟩
    rw [Lexeme.token?] at ht
    split at ht
    · rename_i kind hkind
      obtain rfl := Option.some.inj ht
      exact ⟨hkind, rfl⟩
    · cases ht
  · rintro ⟨x, hx, hkind, hspan⟩
    exact ⟨x, hx, by rw [Lexeme.token?, hkind, hspan]⟩

theorem ascending (h : Shading offset gap line marks placed) :
    TokenStream.Ascending (tokens placed) := by
  induction h with
  | done => exact ⟨by simp [tokens], .nil⟩
  | blank layout later ih => exact ih
  | @lexeme offset line gap c body kind marks placed layout measured later ih =>
      have hstop : offset < offset + byteLength (c :: body) := by
        have := c.utf8Size_pos
        rw [byteLength_cons]
        omega
      cases kind with
      | punctuation => exact ih
      | token kind =>
          have htokens :
              tokens ((line, ⟨.token kind, gap, offset, String.ofList (c :: body)⟩) :: placed) =
              ⟨kind, ⟨offset, byteLength (c :: body)⟩⟩ :: tokens placed := by
            simp only [tokens, List.filterMap_cons, Lexeme.token?, Lexeme.span,
              Lexeme.utf8ByteSize_ofList]
          rw [htokens]
          refine ⟨?_, List.pairwise_cons.2 ⟨fun t ht => ?_, ih.2⟩⟩
          · intro t ht
            rcases List.mem_cons.1 ht with rfl | ht
            · exact hstop
            · exact ih.1 t ht
          · obtain ⟨x, hx, -, hspan⟩ := mem_tokens_iff.1 ht
            have := later.offset_le_start hx
            rw [← hspan]
            exact this

theorem shields_token (kind : TokenKind) :
    (LexemeKind.token kind).shields = [TokenKind.comment, .string].contains kind := by
  cases kind <;> rfl

/-- A mark that stands behind the front of a text and before the end of a piece belongs to the
piece. -/
theorem mem_of_between {front piece back front' back' : List Mark} {m : Mark}
    (h : front ++ piece ++ back = front' ++ m :: back')
    (hle : byteLength (chars front) ≤ byteLength (chars front'))
    (hlt : byteLength (chars front') < byteLength (chars front) + byteLength (chars piece)) :
    m ∈ piece := by
  have hpos : ∀ marks : List Mark, byteLength (chars marks) = 0 → marks = [] := fun marks hzero =>
    List.map_eq_nil_iff.1 (byteLength_eq_zero_iff.1 hzero)
  rw [List.append_assoc] at h
  obtain ⟨between, hfront, hrest⟩ : ∃ between, front' = front ++ between ∧
      piece ++ back = between ++ m :: back' := by
    rcases List.append_eq_append_iff.1 h with hsplit | ⟨between, rfl, hrest⟩
    · exact hsplit
    · rw [chars_append, byteLength_append] at hle
      obtain rfl := hpos between (by omega)
      exact ⟨[], by simp, by simpa using hrest.symm⟩
  rw [hfront, chars_append, byteLength_append] at hlt
  rcases List.append_eq_append_iff.1 hrest with ⟨more, rfl, -⟩ | ⟨more, rfl, hmore⟩
  · rw [chars_append, byteLength_append] at hlt
    omega
  · cases more with
    | nil =>
        rw [List.append_nil] at hlt
        omega
    | cons first more =>
        obtain ⟨rfl, -⟩ := List.cons.inj hmore
        simp

/-- A lexeme that shields a character of a piece shares a byte with the piece, and the other way
round. -/
theorem exists_shielding_iff {front piece back : List Mark}
    (h : Shading 0 gap line (front ++ piece ++ back) placed) (hpiece : piece ≠ []) :
    (∃ x ∈ placed, x.2.kind.shields = true ∧ byteLength (chars front) < x.2.stop ∧
      x.2.start < byteLength (chars front) + byteLength (chars piece)) ↔
    ∃ m ∈ piece, m.shielded = true := by
  constructor
  · rintro ⟨x, hx, hkind, hstop, hstart⟩
    rcases Nat.lt_or_ge (byteLength (chars front)) x.2.start with hlt | hle
    · -- the lexeme begins inside the piece, and its first character is shielded
      obtain ⟨front', c, body, back', hmarks, hstart', -, -⟩ := h.exists_piece hx
      rw [hkind, ofChars, List.append_assoc _ _ back', List.cons_append] at hmarks
      rw [hstart', Nat.zero_add] at hlt hstart
      exact ⟨_, mem_of_between hmarks (Nat.le_of_lt hlt) hstart, rfl⟩
    · -- the first character of the piece lies in the lexeme
      obtain ⟨m, rest, rfl⟩ := List.exists_cons_of_ne_nil hpiece
      rw [List.append_assoc, List.cons_append] at h
      refine ⟨m, List.mem_cons_self, h.shielded_iff.2 ⟨x, hx, hkind, ?_, ?_⟩⟩
      · rw [Nat.zero_add]
        exact hle
      · rw [Nat.zero_add]
        exact hstop
  · rintro ⟨m, hm, hshielded⟩
    obtain ⟨before, after, rfl⟩ := List.append_of_mem hm
    have hsplit : front ++ (before ++ m :: after) ++ back =
        (front ++ before) ++ m :: (after ++ back) := by simp
    rw [hsplit] at h
    obtain ⟨x, hx, hkind, hstart, hstop⟩ := h.shielded_iff.1 hshielded
    have hpos := m.char.utf8Size_pos
    simp only [chars_append, chars_cons, byteLength_append, byteLength_cons] at hstart hstop ⊢
    exact ⟨x, hx, hkind, by omega, by omega⟩

/-- Whether a piece of the text lies outside comments and string literals shows in its marks. -/
theorem accepts_eq {front piece back : List Mark}
    (h : Shading 0 gap line (front ++ piece ++ back) placed) (hpiece : piece ≠ []) :
    (TokenFilter.excluding [.comment, .string]).accepts
        ((TokenStream.ofList (tokens placed)).kindsOverlapping
          ⟨byteLength (chars front), byteLength (chars piece)⟩) =
      piece.all fun m => !m.shielded := by
  have hrange : (⟨byteLength (chars front), byteLength (chars piece)⟩ : Span).isEmpty = false := by
    obtain ⟨m, rest, rfl⟩ := List.exists_cons_of_ne_nil hpiece
    have := m.char.utf8Size_pos
    simp [Span.isEmpty]
    omega
  have hany : (((TokenStream.ofList (tokens placed)).kindsOverlapping
      ⟨byteLength (chars front), byteLength (chars piece)⟩).any
        [TokenKind.comment, .string].contains) = piece.any Mark.shielded := by
    rw [Bool.eq_iff_iff, TokenStream.kindsOverlapping, List.any_map, List.any_eq_true,
      List.any_eq_true, ← h.exists_shielding_iff hpiece]
    constructor
    · rintro ⟨t, ht, hkind⟩
      obtain ⟨htokens, hlocation, hstop⟩ := (TokenStream.mem_overlapping_iff h.ascending hrange).1 ht
      obtain ⟨x, hx, hxkind, hspan⟩ := mem_tokens_iff.1 htokens
      rw [← hspan] at hlocation hstop
      exact ⟨x, hx, by rw [hxkind, shields_token]; exact hkind, hlocation, hstop⟩
    · rintro ⟨x, hx, hkind, hstop, hstart⟩
      cases hxkind : x.2.kind with
      | punctuation =>
          rw [hxkind] at hkind
          cases hkind
      | token kind =>
          rw [hxkind, shields_token] at hkind
          refine ⟨⟨kind, x.2.span⟩, ?_, hkind⟩
          exact (TokenStream.mem_overlapping_iff h.ascending hrange).2
            ⟨mem_tokens_iff.2 ⟨x, hx, hxkind, rfl⟩, hstop, hstart⟩
  rw [TokenFilter.accepts, hany, List.not_any_eq_all_not]

/-! ### Directives -/

/-- The directives of the comments among some lexemes, with their lines. -/
def remarks (placed : List PlacedLexeme) : List (Nat × Directive) :=
  placed.flatMap fun x =>
    if x.2.isComment then
      (Directive.ofComment x.2.text).map fun (offset, directive) =>
        (x.1 + (offsetsAfterNewlines 0 x.2.text.toList).countP (· ≤ offset), directive)
    else []

/-- A directive stands within its comment. -/
theorem le_of_mem_ofComment {comment : String} {offset : Nat} {directive : Directive}
    (h : (offset, directive) ∈ Directive.ofComment comment) :
    offset ≤ byteLength comment.toList := by
  rw [Directive.ofComment, List.mem_filterMap] at h
  obtain ⟨o, -, ho⟩ := h
  rw [Directive.at?, Option.map_eq_some_iff] at ho
  obtain ⟨found, hfound, heq⟩ := ho
  obtain ⟨rfl, -⟩ := Prod.mk.inj heq
  obtain ⟨rest, hrest, -⟩ := Option.bind_eq_some_iff.1 hfound
  obtain ⟨front, hfront, hlength⟩ := eq_append_of_dropBytes? hrest
  rw [hfront, byteLength_append]
  omega

/-- Comments whose texts and lines can be read back give their directives. -/
theorem directives_of_comments {source : String} {lines : LineIndex} {placed : List PlacedLexeme}
    (hcomment : ∀ x ∈ placed, x.2.isComment = true → x.2.span.slice? source = some x.2.text ∧
      ∀ offset ≤ byteLength x.2.text.toList, lines.lineOf (x.2.span.location + offset) =
        x.1 + (offsetsAfterNewlines 0 x.2.text.toList).countP (· ≤ offset)) :
    Suppression.directives source (TokenStream.ofList (tokens placed)) lines = remarks placed := by
  induction placed with
  | nil => rfl
  | cons x placed ih =>
      have hrest := ih fun y hy => hcomment y (List.mem_cons_of_mem _ hy)
      have hx := hcomment x List.mem_cons_self
      simp only [Suppression.directives, TokenStream.toList, TokenStream.ofList, tokens, remarks]
        at hrest ⊢
      rw [List.filterMap_cons, List.flatMap_cons, ← hrest]
      cases hkind : x.2.kind with
      | punctuation => simp [Lexeme.token?, Lexeme.isComment, hkind]
      | token kind =>
          cases his : x.2.isComment with
          | false =>
              have hne : (kind == TokenKind.comment) = false := by
                rw [Lexeme.isComment, hkind] at his
                rw [beq_eq_false_iff_ne] at his ⊢
                exact fun h => his (by rw [h])
              simp [Lexeme.token?, hkind, hne]
          | true =>
              obtain rfl : kind = .comment := by
                rw [Lexeme.isComment, hkind] at his
                simpa using his
              obtain ⟨htext, hline⟩ := hx his
              simp only [Lexeme.token?, hkind, BEq.rfl, List.filter_cons_of_pos, List.flatMap_cons,
                Token.text?, htext, if_true]
              congr 1
              apply List.map_congr_left
              intro found hfound
              rw [hline _ (le_of_mem_ofComment hfound)]

/-- The directives of a source text are those of its comments. -/
theorem directives_eq {source : String} (h : Shading 0 gap 1 marks placed)
    (hsource : source.toList = chars marks) :
    Suppression.directives source (TokenStream.ofList (tokens placed)) (.ofString source) =
      remarks placed := by
  apply directives_of_comments
  intro x hx _
  obtain ⟨front, c, body, back, hmarks, hstart, htext, hline⟩ := h.exists_piece hx
  have hparts : source.toList = chars front ++ x.2.text.toList ++ chars back := by
    rw [hsource, hmarks, htext, String.toList_ofList, chars_append, chars_append, chars_ofChars]
  rw [Nat.zero_add] at hstart
  constructor
  · rw [Span.slice?_eq, Option.map_eq_some_iff]
    refine ⟨x.2.text.toList, Span.chars?_eq_some_iff.2
      ⟨chars front, chars back, hparts, hstart.symm, byteLength_toList _⟩, String.ofList_toList⟩
  · intro offset hoffset
    rw [Lexeme.span, hstart, LineIndex.lineOf_within hparts hoffset, hline]

end Shading

/-- A lexeme of a text is the piece of it that is measured where it begins. -/
theorem Lexeme.exists_measured {source : String} {lexemes : List Lexeme} {x : Lexeme}
    (h : ofSource source = .ok lexemes) (hx : x ∈ lexemes) :
    ∃ front c body back, source.toList = front ++ c :: (body ++ back) ∧ x.start = byteLength front ∧
      x.text = String.ofList (c :: body) ∧ measure x.start c (body ++ back) = .ok (x.kind, body.length) := by
  obtain ⟨marks, placed, hshading, hchars, rfl⟩ := Shading.exists_of_scan 1 h
  obtain ⟨y, hy, rfl⟩ := List.mem_map.1 hx
  obtain ⟨front, c, body, back, rfl, hstart, htext, -, hmeasured⟩ := hshading.exists_measured hy
  refine ⟨Mark.chars front, c, body, Mark.chars back, ?_, by rw [hstart, Nat.zero_add], htext, hmeasured⟩
  rw [← hchars, Mark.chars_append, Mark.chars_append, Mark.chars_ofChars, List.append_assoc, List.cons_append]

end SourceLint
