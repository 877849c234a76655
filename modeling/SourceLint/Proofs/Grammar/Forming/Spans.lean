import SourceLint.Proofs.Grammar.Faults.Source
import SourceLint.Proofs.Grammar.Forming.Places
import SourceLint.Proofs.Syntax.Composition
import SourceLint.Proofs.Text.Lines

/-!
# The spans of a tree have their texts in the source

The snapshot of a source text is not checked for more than the order of its tokens and nodes. Still, each span in
the tree has a piece of the source under it, the parts of a node lie within it, a body stands between two
delimiters, and a name is the text under its span.

## Main definitions

* `Node.LiesIn` — what the spans of a node say about the source.

## Main result

* `Snapshot.liesIn_ofSource`

## Implementation notes

The name of a call or of a type is put together from lexemes and their gaps, and these are the text under its span
(`Cursor.ReadsText`).
-/

namespace SourceLint

/-! ### Pieces of a source -/

/-- The byte before the span opens a delimiter, and the byte behind it closes one of the same type. -/
def Span.IsEnclosed (span : Span) (source : String) : Prop :=
  ∃ before opener closer, (opener, closer) ∈ [("(", ")"), ("[", "]"), ("\x7b", "\x7d")] ∧
    before + 1 = span.location ∧ (Span.mk before 1).slice? source = some opener ∧
    (Span.mk span.stop 1).slice? source = some closer

/-- The text without its white space. -/
def withoutBlanks (text : String) : String := String.ofList (text.toList.filter fun c => !isBlank c)

/-- Every span of the node has a text in the source, the spans of its name, its body and its elements lie within its
own, a body is enclosed by delimiters, and there is a name when there is a span for it: the text under that span,
for a call or a type without white space. -/
structure Node.LiesIn (source : String) (node : Node) : Prop where
  span : ∃ text, node.span.slice? source = some text
  nameSpan : ∀ span, node.nameSpan = some span →
    (∃ text, span.slice? source = some text) ∧ node.span.covers span = true
  body : ∀ span, node.body = some span →
    (∃ text, span.slice? source = some text) ∧ node.span.covers span = true ∧ span.IsEnclosed source
  elements : ∀ e ∈ node.elements,
    (∃ text, e.span.slice? source = some text) ∧ node.span.covers e.span = true
  attributes : ∀ a ∈ node.attributes, ∃ text, a.span.slice? source = some text
  named : node.name.isSome = node.nameSpan.isSome
  name : ∀ span text, node.nameSpan = some span → span.slice? source = some text →
    node.name = some (if node.kind.joinsName then withoutBlanks text else text)

/-- A span that begins and ends between characters has a text under it. -/
theorem Span.exists_slice? {span : Span} {source : String}
    (hbegins : (String.Pos.Raw.mk span.location).IsValid source)
    (hends : (String.Pos.Raw.mk span.stop).IsValid source) : ∃ text, span.slice? source = some text :=
  ⟨_, dif_pos ⟨hbegins, hends⟩⟩

/-! ### Stretches of lexemes -/

namespace Cursor

variable {c later : Cursor} {cs : List Char}

/-- Behind the last lexeme that has been taken the text is made of the lexemes ahead and their gaps. -/
def ReadsText (c : Cursor) (cs : List Char) : Prop :=
  ∃ front behind, cs = front ++ behind ∧ byteLength front = c.lastStop ∧
    Lexeme.Composes c.lastStop behind c.ahead

/-- The characters of some lexemes and their gaps. -/
def chars (lexemes : List Lexeme) : List Char := lexemes.flatMap fun l => l.gap.toList ++ l.text.toList

theorem lexemesTo_advanceBy (c : Cursor) (n : Nat) : c.lexemesTo (c.advanceBy n) = c.ahead.take n := by
  rw [lexemesTo, ahead_advanceBy, List.length_drop, Nat.sub_sub_eq_min, Nat.min_comm,
    ← List.take_eq_take_min]

/-- The text behind a cursor begins with the characters of the lexemes that are taken from there. -/
theorem exists_behind {behind : List Char} (h : Lexeme.Composes c.lastStop behind c.ahead) (n : Nat) :
    ∃ rest, behind = chars (c.ahead.take n) ++ rest ∧
      c.lastStop + byteLength (chars (c.ahead.take n)) = (c.advanceBy n).lastStop ∧
      Lexeme.Composes (c.advanceBy n).lastStop rest (c.advanceBy n).ahead := by
  induction n generalizing c behind with
  | zero => exact ⟨behind, rfl, rfl, h⟩
  | succ n ih =>
      cases hahead : c.ahead with
      | nil =>
          have hstays := ih h
          rw [hahead, List.take_nil] at hstays
          rwa [List.take_nil, advanceBy, advance_of_nil hahead]
      | cons x ahead =>
          rw [hahead] at h
          obtain ⟨behind, rfl, hstart, hbehind⟩ := h
          have hlater : Lexeme.Composes c.advance.lastStop behind c.advance.ahead := by
            rwa [advance_of_cons hahead]
          obtain ⟨rest, hrest, hlength, hcomposes⟩ := ih hlater
          rw [advanceBy]
          have htaken : c.advance.ahead = ahead := by rw [advance_of_cons hahead]
          have hchars : chars (x :: ahead.take n) = x.gap.toList ++ x.text.toList ++ chars (ahead.take n) :=
            List.flatMap_cons
          refine ⟨rest, ?_, ?_, hcomposes⟩
          · rw [hrest, htaken, List.take_succ_cons, hchars]
            simp only [List.append_assoc]
          · rw [← hlength, htaken, List.take_succ_cons, hchars, byteLength_append, byteLength_append,
              advance_of_cons hahead, Lexeme.stop_eq, hstart, Nat.add_assoc, Nat.add_assoc, Nat.add_assoc]

theorem ReadsText.reaches (h : c.ReadsText cs) (hlater : c.Reaches later) : later.ReadsText cs := by
  obtain ⟨front, behind, rfl, hfront, hcomposes⟩ := h
  obtain ⟨n, rfl⟩ := hlater
  obtain ⟨rest, rfl, hlength, hrest⟩ := exists_behind hcomposes n
  refine ⟨front ++ chars (c.ahead.take n), rest, (List.append_assoc ..).symm, ?_, hrest⟩
  rw [byteLength_append, hfront, hlength]

/-- The lexemes from one cursor to another spell the text between them. -/
theorem ReadsText.spelling {source : String} (h : c.ReadsText source.toList) (hpasses : c.Passes later) :
    ∃ text, (Span.ofBounds c.here later.lastStop).slice? source = some text ∧
      Lexeme.spelling (c.lexemesTo later) = withoutBlanks text := by
  obtain ⟨x, hpeek, -⟩ := hpasses.exists_next
  obtain ⟨ahead, hahead⟩ := peek?_eq_some_iff.1 hpeek
  obtain ⟨⟨n, rfl⟩, hlength⟩ := hpasses
  cases n with
  | zero => exact absurd hlength (Nat.lt_irrefl _)
  | succ n =>
      obtain ⟨front, behind, hsource, hfront, hcomposes⟩ := h
      obtain ⟨rest, rfl, hstop, -⟩ := exists_behind hcomposes (n + 1)
      rw [hahead] at hcomposes
      obtain ⟨-, -, hstart, -⟩ := hcomposes
      have hchars : chars (c.ahead.take (n + 1)) =
          x.gap.toList ++ (x.text.toList ++ chars (ahead.take n)) := by
        rw [hahead, List.take_succ_cons, chars, List.flatMap_cons, List.append_assoc]
        rfl
      have hhere : byteLength (front ++ x.gap.toList) = c.here := by
        rw [byteLength_append, hfront, here_of_peek? hpeek, hstart]
      have hend : byteLength (front ++ x.gap.toList ++ (x.text.toList ++ chars (ahead.take n))) =
          (c.advanceBy (n + 1)).lastStop := by
        rw [← hstop, ← hfront, hchars, List.append_assoc, byteLength_append]
      have hparts : source.toList =
          front ++ x.gap.toList ++ (x.text.toList ++ chars (ahead.take n)) ++ rest := by
        rw [hsource, hchars]
        simp only [List.append_assoc]
      have hslice := Span.slice?_ofBounds hparts
      rw [hhere, hend] at hslice
      refine ⟨_, hslice, ?_⟩
      rw [lexemesTo_advanceBy, hahead, List.take_succ_cons, Lexeme.spelling, withoutBlanks,
        String.toList_ofList]
      rfl

end Cursor

/-! ### The lexemes of a source -/

section Source

variable {source : String} {lexemes : List Lexeme} {x : Lexeme}

/-- A significant lexeme is a piece of the source that begins and ends between characters. -/
theorem Lexeme.piece_of_mem_significant (hlexemes : ofSource source = .ok lexemes)
    (hx : x ∈ significant "" lexemes) :
    (String.Pos.Raw.mk x.start).IsValid source ∧ (String.Pos.Raw.mk x.stop).IsValid source ∧
      x.span.slice? source = some x.text := by
  obtain ⟨y, hy, -, hstart, htext⟩ := exists_of_mem_significant hx
  have htiles := Tiles.of_ofSource hlexemes
  have hspan : x.span = y.span := by rw [span, span, hstart, htext]
  have hstop : x.stop = y.stop := by rw [stop, stop, hstart, htext]
  rw [hspan, hstart, hstop, htext]
  exact ⟨htiles.begins y hy, htiles.ends y hy, htiles.texts y hy⟩

/-- The lexeme of a symbol of one byte has that byte in the source. -/
theorem Lexeme.slice?_of_isSymbol (hlexemes : ofSource source = .ok lexemes)
    (hx : x ∈ significant "" lexemes) {text : String} (hsymbol : x.isSymbol text = true)
    (hsize : text.utf8ByteSize = 1) :
    (Span.mk x.start 1).slice? source = some text ∧ x.stop = x.start + 1 := by
  have hslice := (piece_of_mem_significant hlexemes hx).2.2
  rw [isSymbol, Bool.and_eq_true, beq_iff_eq, beq_iff_eq] at hsymbol
  rw [span, hsymbol.2, hsize] at hslice
  refine ⟨hslice, ?_⟩
  rw [stop, hsymbol.2, hsize]

/-- The cursor before the first significant lexeme of a source. -/
abbrev startOf (source : String) (lexemes : List Lexeme) : Cursor :=
  ⟨Lexeme.significant "" lexemes, 0, source.utf8ByteSize⟩

theorem readsText_startOf (hlexemes : Lexeme.ofSource source = .ok lexemes) :
    (startOf source lexemes).ReadsText source.toList :=
  ⟨[], source.toList, rfl, rfl,
    @Lexeme.Composes.significant 0 "" _ _ (Lexeme.composes_ofSource hlexemes)⟩

theorem isValid_of_marks (hlexemes : Lexeme.ofSource source = .ok lexemes) {offset : Nat}
    (h : (startOf source lexemes).Marks offset) : (String.Pos.Raw.mk offset).IsValid source := by
  obtain ⟨y, hy, hoffset⟩ := h
  obtain ⟨hbegins, hends, -⟩ := Lexeme.piece_of_mem_significant hlexemes hy
  rcases hoffset with rfl | rfl
  · exact hbegins
  · exact hends

theorem exists_slice?_of_frames (hlexemes : Lexeme.ofSource source = .ok lexemes) {span : Span}
    (h : (startOf source lexemes).Frames span) : ∃ text, span.slice? source = some text :=
  Span.exists_slice? (isValid_of_marks hlexemes h.begins) (isValid_of_marks hlexemes h.ends)

/-- Two delimiters that fit have a span between them that they enclose. -/
theorem isEnclosed_of_closes (hlexemes : Lexeme.ofSource source = .ok lexemes) {opener closer : Lexeme}
    (hopener : opener ∈ Lexeme.significant "" lexemes) (hcloser : closer ∈ Lexeme.significant "" lexemes)
    (hcloses : closer.closes opener = true) (hle : opener.stop ≤ closer.start) :
    (Span.ofBounds opener.stop closer.start).IsEnclosed source := by
  have hpair : ∀ {left right : String}, left.utf8ByteSize = 1 → right.utf8ByteSize = 1 →
      (left, right) ∈ [("(", ")"), ("[", "]"), ("\x7b", "\x7d")] →
      (opener.isSymbol left && closer.isSymbol right) = true →
      (Span.ofBounds opener.stop closer.start).IsEnclosed source := by
    intro left right hleft hright hmem hsymbols
    rw [Bool.and_eq_true] at hsymbols
    obtain ⟨hbefore, hstop⟩ := Lexeme.slice?_of_isSymbol hlexemes hopener hsymbols.1 hleft
    obtain ⟨hbehind, -⟩ := Lexeme.slice?_of_isSymbol hlexemes hcloser hsymbols.2 hright
    refine ⟨opener.start, left, right, hmem, hstop.symm, hbefore, ?_⟩
    rwa [Span.stop_ofBounds hle]
  rw [Lexeme.closes, Bool.or_eq_true, Bool.or_eq_true] at hcloses
  rcases hcloses with (hround | hsquare) | hcurly
  · exact hpair rfl rfl (by decide) hround
  · exact hpair rfl rfl (by decide) hsquare
  · exact hpair rfl rfl (by decide) hcurly

/-- The name of a node is the text under the span of the name. -/
theorem Node.NamedBetween.name_eq (hlexemes : Lexeme.ofSource source = .ok lexemes) {node : Node}
    {later : Cursor} (h : node.NamedBetween (startOf source lexemes) later) :
    node.name.isSome = node.nameSpan.isSome ∧
      ∀ span text, node.nameSpan = some span → span.slice? source = some text →
        node.name = some (if node.kind.joinsName then withoutBlanks text else text) := by
  cases h with
  | anonymous hname hspan =>
      rw [hname, hspan]
      exact ⟨rfl, fun _ _ h => (Option.some_ne_none _ h.symm).elim⟩
  | word x hx hkind hname hspan =>
      rw [hname, hspan, hkind]
      refine ⟨rfl, ?_⟩
      rintro span text ⟨⟩ htext
      have hpiece := (Lexeme.piece_of_mem_significant hlexemes (hx.mem (.refl _))).2.2
      exact hpiece.symm.trans htext
  | joined first last hfirst hpasses hlast hkind hname hspan =>
      rw [hname, hspan, hkind]
      refine ⟨rfl, ?_⟩
      rintro span text ⟨⟩ htext
      obtain ⟨piece, hpiece, hspelling⟩ := ((readsText_startOf hlexemes).reaches hfirst).spelling hpasses
      obtain rfl := Option.some.inj (hpiece.symm.trans htext)
      rw [hspelling]
      rfl

/-- A node that is well formed from the lexemes of a source has its spans in the source. -/
theorem Node.WellFormed.liesIn (hlexemes : Lexeme.ofSource source = .ok lexemes) {node : Node}
    (h : node.WellFormed (startOf source lexemes)) : node.LiesIn source := by
  obtain ⟨later, hnamed⟩ := h.named
  obtain ⟨hsome, hname⟩ := hnamed.name_eq hlexemes
  constructor
  case span => exact exists_slice?_of_frames hlexemes h.framed
  case nameSpan =>
    intro span hspan
    obtain ⟨hframes, hcovers⟩ := h.nameInside span hspan
    exact ⟨exists_slice?_of_frames hlexemes hframes, hcovers⟩
  case body =>
    intro span hspan
    obtain ⟨hframes, hcovers⟩ := h.bodyInside span hspan
    obtain ⟨opener, hopener, closer, hcloser, hcloses, hle, rfl⟩ := h.enclosed span hspan
    exact ⟨exists_slice?_of_frames hlexemes hframes, hcovers,
      isEnclosed_of_closes hlexemes hopener hcloser hcloses hle⟩
  case elements =>
    intro e he
    obtain ⟨hframes, hcovers⟩ := h.elementsInside e he
    exact ⟨exists_slice?_of_frames hlexemes hframes, hcovers⟩
  case attributes => exact fun a ha => exists_slice?_of_frames hlexemes (h.attributesFramed a ha)
  case named => exact hsome
  case name => exact hname

end Source

/-- In the tree of a source text every span has a piece of the source under it, names, bodies and elements lie
within their nodes, bodies are enclosed by delimiters, and names are the texts under their spans. -/
theorem Snapshot.liesIn_ofSource {source : String} {snapshot : Snapshot} (h : ofSource source = .ok snapshot) :
    ∀ node ∈ Node.listingAll snapshot.forest, node.LiesIn source := by
  obtain ⟨lexemes, later, hlexemes, -, hforms⟩ := forms_ofSource h
  exact fun node hnode => (hforms.formed node hnode).liesIn hlexemes

/-- A call of a member on another line, behind a comment, with a closure that joins it. -/
theorem Snapshot.liesIn_ofSource_member :
    ∃ snapshot, ofSource "é // ñ\n  .map(x) \x7b y \x7d" = .ok snapshot ∧
      snapshot.forest.map (fun node => (node.kind, node.name, node.nameSpan, node.body)) =
        [(.call, some "é//ñ.map", some ⟨0, 15⟩, some ⟨16, 1⟩)] ∧
      ∀ node ∈ Node.listingAll snapshot.forest, node.LiesIn "é // ñ\n  .map(x) \x7b y \x7d" := by
  have hread : ((ofSource "é // ñ\n  .map(x) \x7b y \x7d").toOption.any fun snapshot =>
      snapshot.forest.map (fun node => (node.kind, node.name, node.nameSpan, node.body)) ==
        [(.call, some "é//ñ.map", some ⟨0, 15⟩, some ⟨16, 1⟩)]) = true := by
    decide +kernel
  obtain ⟨snapshot, hsnapshot, hnodes⟩ := exists_of_toOption_any hread
  exact ⟨snapshot, hsnapshot, eq_of_beq hnodes, liesIn_ofSource hsnapshot⟩

end SourceLint
