import SourceLint.Proofs.Rules.CommentLines
import SourceLint.Proofs.Syntax.Comments

/-!
# Remarks about open work in the text

The rule on open work looks for its words in the whole text and asks which tokens they share bytes with. So it reports
the words that stand by themselves in a comment, each of them once and in order, and what it quotes is a piece of the
same line and of the same comment.

## Main results

* `OpenRemark.mem_markers_iff`, `OpenRemark.pairwise_markers`: the markers are the words TODO and FIXME between word
  boundaries, from left to right and apart from each other.
* `OpenRemark.validate_spec`: which of them are reported, and what is said about them.
-/

namespace SourceLint.OpenRemark

/-! ### Words -/

/-- Of the characters on the two sides exactly one belongs to a word. -/
def IsWordBoundary (front after : List Char) : Prop :=
  front.getLast?.any isWordChar ≠ after.head?.any isWordChar

/-- A word for open work stands in a text, as a word of its own. -/
structure IsMarked (text front : List Char) (word : String) (after : List Char) : Prop where
  parts : text = front ++ (word.toList ++ after)
  known : word ∈ ["TODO", "FIXME"]
  begins : IsWordBoundary front (word.toList ++ after)
  ends : IsWordBoundary (front ++ word.toList) after

variable {text front front' cs after after' : List Char} {word word' : String} {offset : Nat} {withinWord : Bool}
  {m : Marker}

/-- What the words for open work are made of. -/
theorem isWordChar_of_mem (hword : word ∈ ["TODO", "FIXME"]) {c : Char} (hc : c ∈ word.toList) :
    isWordChar c = true := by
  have hall : ∀ word ∈ ["TODO", "FIXME"], word.toList.all isWordChar = true := by decide +kernel
  exact List.all_eq_true.1 (hall word hword) c hc

theorem toList_ne_nil (hword : word ∈ ["TODO", "FIXME"]) : word.toList ≠ [] := by
  have hall : ∀ word ∈ ["TODO", "FIXME"], word.toList ≠ [] := by decide
  exact hall word hword

theorem isWordEnd_iff : isWordEnd after = true ↔ after.head?.any isWordChar = false := by
  cases after with
  | nil => simp [isWordEnd]
  | cons c after => simp [isWordEnd]

/-- A word of word characters stands by itself when no word character is next to it. -/
theorem isMarked_iff : IsMarked text front word after ↔
    text = front ++ (word.toList ++ after) ∧ word ∈ ["TODO", "FIXME"] ∧ front.getLast?.any isWordChar = false ∧
      isWordEnd after = true := by
  have hsides : word ∈ ["TODO", "FIXME"] → (word.toList ++ after).head?.any isWordChar = true ∧
      (front ++ word.toList).getLast?.any isWordChar = true := by
    intro hword
    have hne := toList_ne_nil hword
    rw [List.head?_append_of_ne_nil _ hne, List.getLast?_append_of_ne_nil _ hne, List.head?_eq_some_head hne,
      List.getLast?_eq_some_getLast hne, Option.any_some, Option.any_some]
    exact ⟨isWordChar_of_mem hword (List.head_mem hne), isWordChar_of_mem hword (List.getLast_mem hne)⟩
  rw [isWordEnd_iff]
  constructor
  · rintro ⟨hparts, hword, hbegins, hends⟩
    obtain ⟨hfirst, hlast⟩ := hsides hword
    rw [IsWordBoundary, hfirst, Ne, Bool.not_eq_true] at hbegins
    rw [IsWordBoundary, hlast, ne_comm, Ne, Bool.not_eq_true] at hends
    exact ⟨hparts, hword, hbegins, hends⟩
  · rintro ⟨hparts, hword, hbegins, hends⟩
    obtain ⟨hfirst, hlast⟩ := hsides hword
    refine ⟨hparts, hword, ?_, ?_⟩
    · rw [IsWordBoundary, hbegins, hfirst]
      decide
    · rw [IsWordBoundary, hends, hlast]
      decide

/-- Two words that stand by themselves stand apart. -/
theorem IsMarked.apart (h : IsMarked text front word after) (h' : IsMarked text front' word' after')
    (hlt : byteLength front < byteLength front') : byteLength (front ++ word.toList) ≤ byteLength front' := by
  obtain ⟨rfl, hword, -, -⟩ := isMarked_iff.1 h
  obtain ⟨hparts, -, hbegins, -⟩ := isMarked_iff.1 h'
  by_contra hwithin
  rw [byteLength_append] at hwithin
  -- The second word begins behind a character of the first one.
  obtain ⟨between, rfl, hrest⟩ := exists_append_of_byteLength_le hparts (Nat.le_of_lt hlt)
  rw [byteLength_append] at hlt hwithin
  obtain ⟨more, hbetween, -⟩ := exists_append_of_byteLength_le hrest.symm (by omega)
  have hne : between ≠ [] := by
    rintro rfl
    simp at hlt
  rw [List.getLast?_append_of_ne_nil _ hne, List.getLast?_eq_some_getLast hne, Option.any_some] at hbegins
  have hchar : isWordChar (between.getLast hne) = true := by
    apply isWordChar_of_mem hword
    rw [hbetween]
    exact List.mem_append_left more (List.getLast_mem hne)
  rw [hchar] at hbegins
  cases hbegins

/-- At one place there is one word. -/
theorem IsMarked.unique (h : IsMarked text front word after) (h' : IsMarked text front' word' after')
    (hsame : byteLength front = byteLength front') : word = word' ∧ after = after' := by
  obtain ⟨-, hwords⟩ := append_inj_of_byteLength_eq (h.parts.symm.trans h'.parts) hsame
  have hfirst := congrArg List.head? hwords
  rw [List.head?_append_of_ne_nil _ (toList_ne_nil h.known), List.head?_append_of_ne_nil _ (toList_ne_nil h'.known)]
    at hfirst
  have hall : ∀ word ∈ ["TODO", "FIXME"], ∀ word' ∈ ["TODO", "FIXME"],
      word.toList.head? = word'.toList.head? → word = word' := by decide
  obtain rfl := hall word h.known word' h'.known hfirst
  exact ⟨rfl, List.append_cancel_left hwords⟩

/-! ### Markers -/

theorem markerAt?_eq_some_iff : markerAt? offset cs = some m ↔
    m.offset = offset ∧ m.word ∈ ["TODO", "FIXME"] ∧ cs = m.word.toList ++ m.after ∧ isWordEnd m.after = true := by
  have htodo : "TODO".toList = ['T', 'O', 'D', 'O'] := rfl
  have hfixme : "FIXME".toList = ['F', 'I', 'X', 'M', 'E'] := rfl
  constructor
  · intro h
    rw [markerAt?.eq_def] at h
    split at h
    · split at h
      · rename_i hends
        obtain rfl := Option.some.inj h
        exact ⟨rfl, by simp, by rw [htodo]; rfl, hends⟩
      · cases h
    · split at h
      · rename_i hends
        obtain rfl := Option.some.inj h
        exact ⟨rfl, by simp, by rw [hfixme]; rfl, hends⟩
      · cases h
    · cases h
  · obtain ⟨word, offset', after⟩ := m
    rintro ⟨rfl, hword, rfl, hends⟩
    rcases (by simpa using hword : word = "TODO" ∨ word = "FIXME") with rfl | rfl
    · rw [htodo]
      exact if_pos hends
    · rw [hfixme]
      exact if_pos hends

theorem markersFrom_cons (offset : Nat) (withinWord : Bool) (c : Char) (cs : List Char) :
    markersFrom offset withinWord (c :: cs) =
      (if withinWord then none else markerAt? offset (c :: cs)).toList ++
        markersFrom (offset + c.utf8Size) (isWordChar c) cs := by
  rw [markersFrom]
  split
  · rename_i hfirst
    rw [hfirst]
    rfl
  · rename_i hfirst
    rw [hfirst]
    rfl

/-- The markers of the rest of a text are the words that stand by themselves in it. -/
theorem mem_markersFrom_iff : m ∈ markersFrom (byteLength front) (front.getLast?.any isWordChar) cs ↔
    ∃ between, byteLength (front ++ between) = m.offset ∧
      IsMarked (front ++ cs) (front ++ between) m.word m.after := by
  simp only [isMarked_iff]
  induction cs generalizing front with
  | nil =>
      rw [markersFrom]
      constructor
      · intro h
        cases h
      · rintro ⟨between, -, hparts, hword, -⟩
        have hlength := congrArg List.length hparts
        have := List.length_pos_iff.2 (toList_ne_nil hword)
        simp only [List.length_append, List.length_nil] at hlength
        omega
  | cons c cs ih =>
      have hlater : markersFrom (byteLength front + c.utf8Size) (isWordChar c) cs =
          markersFrom (byteLength (front ++ [c])) ((front ++ [c]).getLast?.any isWordChar) cs := by
        rw [byteLength_append, byteLength_cons, byteLength_nil, Nat.add_zero, List.getLast?_concat, Option.any_some]
      have hfirst : (if front.getLast?.any isWordChar then none else markerAt? (byteLength front) (c :: cs)) = some m ↔
          front.getLast?.any isWordChar = false ∧ markerAt? (byteLength front) (c :: cs) = some m := by
        cases front.getLast?.any isWordChar <;> simp
      rw [markersFrom_cons, List.mem_append, Option.mem_toList, hfirst, hlater, ih, markerAt?_eq_some_iff]
      constructor
      · rintro (⟨hbegins, hoffset, hword, hparts, hends⟩ | ⟨between, h⟩)
        · refine ⟨[], ?_, ?_, hword, ?_, hends⟩
          · rw [List.append_nil, hoffset]
          · rw [List.append_nil, hparts]
          · rwa [List.append_nil]
        · rw [List.append_assoc, List.append_assoc] at h
          exact ⟨c :: between, h⟩
      · rintro ⟨between, hoffset, hparts, hword, hbegins, hends⟩
        cases between with
        | nil =>
            rw [List.append_nil] at hoffset hparts hbegins
            exact .inl ⟨hbegins, hoffset.symm, hword, List.append_cancel_left hparts, hends⟩
        | cons b between =>
            obtain rfl : c = b := by
              rw [List.append_assoc] at hparts
              exact (List.cons.inj (List.append_cancel_left hparts)).1
            refine .inr ⟨between, ?_⟩
            rw [List.append_assoc, List.append_assoc]
            exact ⟨hoffset, hparts, hword, hbegins, hends⟩

/-- The markers of a text are the words that stand by themselves in it. -/
theorem mem_markers_iff :
    m ∈ markers text ↔ ∃ front, byteLength front = m.offset ∧ IsMarked text front m.word m.after :=
  @mem_markersFrom_iff [] text m

theorem le_offset_of_mem_markersFrom (h : m ∈ markersFrom offset withinWord cs) : offset ≤ m.offset := by
  induction cs generalizing offset withinWord with
  | nil => cases h
  | cons c cs ih =>
      rw [markersFrom_cons, List.mem_append, Option.mem_toList] at h
      rcases h with h | h
      · cases withinWord with
        | true => cases h
        | false => exact Nat.le_of_eq (markerAt?_eq_some_iff.1 h).1.symm
      · exact (Nat.le_add_right offset c.utf8Size).trans (ih h)

theorem pairwise_offset_markersFrom (offset : Nat) (withinWord : Bool) (cs : List Char) :
    (markersFrom offset withinWord cs).Pairwise fun m m' => m.offset < m'.offset := by
  induction cs generalizing offset withinWord with
  | nil => exact .nil
  | cons c cs ih =>
      rw [markersFrom_cons, List.pairwise_append]
      refine ⟨?_, ih _ _, fun m hm m' hm' => ?_⟩
      · cases (if withinWord then none else markerAt? offset (c :: cs)) <;> simp
      · have hoffset : m.offset = offset := by
          rw [Option.mem_toList] at hm
          cases withinWord with
          | true => cases hm
          | false => exact (markerAt?_eq_some_iff.1 hm).1
        have hle := le_offset_of_mem_markersFrom hm'
        have hpos := c.utf8Size_pos
        omega

/-- The markers come from left to right, and no two of them share a byte. -/
theorem pairwise_markers (text : List Char) :
    (markers text).Pairwise fun m m' => m.span.stop ≤ m'.offset := by
  refine (pairwise_offset_markersFrom 0 false text).imp_of_mem fun {m m'} hm hm' hlt => ?_
  obtain ⟨front, hoffset, hmarked⟩ := mem_markers_iff.1 hm
  obtain ⟨front', hoffset', hmarked'⟩ := mem_markers_iff.1 hm'
  have hapart := hmarked.apart hmarked' (by omega)
  rwa [byteLength_append, hoffset, hoffset'] at hapart

/-! ### Comments -/

/-- The bytes of a word behind a part of the text. -/
def wordSpan (front : List Char) (word : String) : Span := ⟨byteLength front, byteLength word.toList⟩

/-- A word for open work stands by itself in the source, and all its bytes lie in a comment. -/
structure IsOpen (context : Context) (comment : Token) (front : List Char) (word : String) (after : List Char) :
    Prop where
  marked : IsMarked context.source.toList front word after
  mem : comment ∈ context.snapshot.tokens.toList
  kind : comment.kind = .comment
  within : ∀ offset, (wordSpan front word).Has offset → comment.span.Has offset

variable {source : String} {context : Context} {lexemes : List Lexeme} {x : Lexeme} {comment : Token}

/-- The first byte of a word. -/
theorem IsMarked.has_first (h : IsMarked text front word after) : (wordSpan front word).Has (byteLength front) := by
  refine ⟨Nat.le_refl _, Nat.lt_add_of_pos_right (Nat.pos_of_ne_zero fun hzero => ?_)⟩
  exact toList_ne_nil h.known (byteLength_eq_zero_iff.1 hzero)

/-- A marker that shares a byte with a comment lies in it, and behind it is the rest of the comment. -/
theorem exists_rest_of_meets (hlexemes : Lexeme.ofSource source = .ok lexemes) (hx : x ∈ lexemes)
    (hkind : x.kind = .token .comment) (h : IsMarked source.toList front word after)
    (hmeets : x.span.Meets (wordSpan front word)) :
    ∃ rest behind, after = rest ++ behind ∧ Lexeme.EndsComment rest behind ∧ x.start ≤ byteLength front ∧
      x.stop = byteLength (front ++ (word.toList ++ rest)) := by
  obtain ⟨before, c, body, behind, hsource, hstart, htext, hmeasure⟩ := Lexeme.exists_measured hlexemes hx
  rw [hkind] at hmeasure
  obtain ⟨rfl, hcomment⟩ := Lexeme.endsComment_of_measure hmeasure
  have hothers : ['*', '/', '\n'].all (fun c => !isWordChar c) = true := by decide +kernel
  have hplain : ∀ c ∈ word.toList, c ∉ ['*', '/', '\n'] := by
    intro c hc hmem
    have hother := List.all_eq_true.1 hothers c hmem
    rw [isWordChar_of_mem h.known hc] at hother
    cases hother
  have hstop : x.stop = byteLength (before ++ '/' :: body) := by
    rw [Lexeme.stop, htext, Lexeme.utf8ByteSize_ofList, hstart, byteLength_append]
  obtain ⟨offset, ⟨hbegins, hends⟩, hbegins', hends'⟩ := hmeets
  have hbefore : byteLength before < byteLength (front ++ word.toList) := by
    rw [← hstart, byteLength_append]
    exact Nat.lt_of_le_of_lt hbegins hends'
  have hbehind : byteLength front < byteLength (before ++ '/' :: body) := by
    rw [← hstop]
    exact Nat.lt_of_le_of_lt hbegins' hends
  obtain ⟨inside, rest, rfl, hinside, hafter, hrest⟩ := hcomment.exists_within (toList_ne_nil h.known) hplain
    (h.parts.symm.trans hsource) hbefore hbehind
  refine ⟨rest, behind, hafter, hrest, ?_, ?_⟩
  · rw [hstart, byteLength_append]
    exact Nat.le_add_right _ _
  · rw [hstop, hinside, List.append_assoc]

section

variable (hsnapshot : Snapshot.ofSource context.source = .ok context.snapshot)
  (hlexemes : Lexeme.ofSource context.source = .ok lexemes)

include hsnapshot hlexemes

/-- The comment around a marker is a lexeme. -/
theorem IsOpen.exists_lexeme (h : IsOpen context comment front word after) :
    ∃ x ∈ lexemes, x.kind = .token .comment ∧ x.span = comment.span := by
  have hmem := h.mem
  rw [Snapshot.toList_tokens hsnapshot hlexemes, List.mem_filterMap] at hmem
  obtain ⟨x, hx, ht⟩ := hmem
  obtain ⟨hkind, hspan⟩ := Lexeme.token?_eq_some_iff.1 ht
  exact ⟨x, hx, by rw [hkind, h.kind], hspan⟩

/-- The filter for comments accepts the markers in comments. -/
theorem accepts_iff (h : IsMarked context.source.toList front word after) :
    context.accepts (.only [.comment]) (wordSpan front word) = true ↔
      ∃ comment, IsOpen context comment front word after := by
  have htiles := Lexeme.Tiles.of_ofSource hlexemes
  have hnonempty : (wordSpan front word).isEmpty = false :=
    beq_eq_false_iff_ne.2 fun hzero => toList_ne_nil h.known (byteLength_eq_zero_iff.1 hzero)
  rw [LineLength.accepts_iff_isCommentLine hsnapshot hlexemes hnonempty]
  constructor
  · rintro ⟨⟨x, hx, hcomment, hmeets⟩, -⟩
    have hkind := Lexeme.isComment_iff.1 hcomment
    obtain ⟨rest, behind, -, -, hstart, hstop⟩ := exists_rest_of_meets hlexemes hx hkind h hmeets
    refine ⟨⟨.comment, x.span⟩, h, ?_, rfl, ?_⟩
    · rw [Snapshot.toList_tokens hsnapshot hlexemes, List.mem_filterMap]
      exact ⟨x, hx, Lexeme.token?_eq_some_iff.2 ⟨hkind, rfl⟩⟩
    · rintro offset ⟨hbegins, hends⟩
      refine ⟨Nat.le_trans hstart hbegins, Nat.lt_of_lt_of_le hends ?_⟩
      change byteLength front + byteLength word.toList ≤ x.stop
      simp only [hstop, byteLength_append]
      omega
  · rintro ⟨comment, hopen⟩
    obtain ⟨x, hx, hkind, hspan⟩ := hopen.exists_lexeme hsnapshot hlexemes
    have hcomment : x.isComment = true := Lexeme.isComment_iff.2 hkind
    have hwithin : ∀ offset, (wordSpan front word).Has offset → x.span.Has offset := hspan ▸ hopen.within
    refine ⟨⟨x, hx, hcomment, _, hwithin _ h.has_first, h.has_first⟩, ?_⟩
    rintro y hy ⟨offset, hy', hword⟩
    obtain rfl := htiles.eq_of_has hx hy (hwithin offset hword) hy'
    exact .inl hcomment

/-- What is said behind a marker lies in the comment around it. -/
theorem IsOpen.byteLength_le_stop {said : List Char} (h : IsOpen context comment front word after)
    (hsaid : said <+: restOfRemark after) : byteLength (front ++ (word.toList ++ said)) ≤ comment.span.stop := by
  obtain ⟨x, hx, hkind, hspan⟩ := h.exists_lexeme hsnapshot hlexemes
  have hmeets : x.span.Meets (wordSpan front word) :=
    ⟨_, hspan ▸ h.within _ h.marked.has_first, h.marked.has_first⟩
  obtain ⟨rest, behind, rfl, hcomment, -, hstop⟩ := exists_rest_of_meets hlexemes hx hkind h.marked hmeets
  obtain ⟨more, rfl⟩ := hsaid.trans hcomment.restOfRemark_prefix
  have hle : byteLength (front ++ (word.toList ++ said)) ≤ x.stop := by
    simp only [hstop, byteLength_append]
    omega
  exact hspan ▸ hle

end

/-! ### Reasons -/

/-- What is said behind a marker, with colons, spaces and tabs before it and white space behind it, up to the end of
the line or up to a closing delimiter. -/
structure IsSaid (after gap message blank rest : List Char) : Prop where
  parts : after = gap ++ (message ++ (blank ++ rest))
  spacing : ∀ c ∈ gap, c = ':' ∨ isSpacing c = true
  begins : ∀ c ∈ message.head?, c ≠ ':' ∧ isSpacing c = false
  ends : ∀ c ∈ message.getLast?, isBlank c = false
  white : ∀ c ∈ blank, isBlank c = true
  oneLine : ∀ c ∈ gap ++ (message ++ blank), c ≠ '\n' ∧ c ≠ '\r'
  oneComment : ¬['*', '/'] <:+: gap ++ (message ++ blank)
  stops : EndsRemark rest

/-- The remark of a marker is what is said behind it. -/
theorem exists_isSaid (m : Marker) : ∃ gap blank rest, IsSaid m.after gap m.remark blank rest ∧
    gap ++ (m.remark ++ blank) = restOfRemark m.after := by
  obtain ⟨rest, hparts, hrest, hline, hnone⟩ := exists_of_restOfRemark m.after
  obtain ⟨gap, said, hsaid, hgap, hbegins⟩ :=
    exists_span (fun c => c == ':' || isSpacing c) (restOfRemark m.after)
  obtain ⟨blank, hblank, hwhite, hends⟩ := exists_of_trimBlanksRight said
  have hremark : m.remark = trimBlanksRight said := by
    rw [Marker.remark, hsaid, dropWhile_span hgap hbegins]
  have hwhole : gap ++ (m.remark ++ blank) = restOfRemark m.after := by rw [hremark, ← hblank, ← hsaid]
  refine ⟨gap, blank, rest, ?_, hwhole⟩
  constructor
  case parts => rw [← List.append_assoc m.remark, ← List.append_assoc gap, hwhole, ← hparts]
  case spacing => exact fun c hc => by simpa using hgap c hc
  case begins =>
    intro c hc
    have hfirst : c ∈ said.head? := by
      rw [hremark] at hc
      rw [hblank, List.head?_append, Option.mem_def.1 hc]
      rfl
    simpa using hbegins c hfirst
  case ends => exact hremark ▸ hends
  case white => exact hwhite
  case oneLine => rwa [hwhole]
  case oneComment => rwa [hwhole]
  case stops => exact hrest

theorem reason_eq (m : Marker) : m.reason =
    if m.remark.isEmpty then m.word ++ "s should be resolved"
    else m.word ++ "s should be resolved (" ++ String.ofList m.remark ++ ")" := by
  have hquote : "s should be resolved" ++ " (" = "s should be resolved (" := rfl
  rw [← hquote, ← String.append_assoc]
  rfl

/-- The words that are reported are those in comments, in the order of the source, each of them once. A message that
is quoted is what is said behind the word on its line and in its comment. -/
theorem validate_spec {options : SeverityOptions}
    (hsnapshot : Snapshot.ofSource context.source = .ok context.snapshot) :
    let found := (rule options).validate context
    (∀ offset, (∃ v ∈ found, v.offset = offset) ↔
        ∃ comment front word after, byteLength front = offset ∧ IsOpen context comment front word after) ∧
      (found.Pairwise fun v w => v.offset < w.offset) ∧
      ∀ v ∈ found, ∀ comment front word after, byteLength front = v.offset →
        IsOpen context comment front word after →
          ∃ gap message blank rest, IsSaid after gap message blank rest ∧
            byteLength (front ++ (word.toList ++ (gap ++ message))) ≤ comment.span.stop ∧
            v.reason = if message.isEmpty then word ++ "s should be resolved"
              else word ++ "s should be resolved (" ++ String.ofList message ++ ")" := by
  intro found
  obtain ⟨lexemes, -, hlexemes, -⟩ := Snapshot.ofSource_eq_ok_iff.1 hsnapshot
  have hfound : ∀ v, v ∈ found ↔ ∃ m ∈ markers context.source.toList,
      context.accepts (.only [.comment]) m.span = true ∧ violation options.severity m = v := by
    intro v
    change v ∈ violations options.severity context ↔ _
    simp only [violations, List.mem_map, List.mem_filter, and_assoc]
  refine ⟨fun offset => ⟨?_, ?_⟩, ?_, ?_⟩
  · rintro ⟨v, hv, rfl⟩
    obtain ⟨m, hm, haccepts, rfl⟩ := (hfound v).1 hv
    obtain ⟨front, hoffset, hmarked⟩ := mem_markers_iff.1 hm
    have hspan : wordSpan front m.word = m.span := congrArg (Span.mk · _) hoffset
    obtain ⟨comment, hopen⟩ := (accepts_iff hsnapshot hlexemes hmarked).1 (hspan ▸ haccepts)
    exact ⟨comment, front, m.word, m.after, hoffset, hopen⟩
  · rintro ⟨comment, front, word, after, rfl, hopen⟩
    have haccepts := (accepts_iff hsnapshot hlexemes hopen.marked).2 ⟨comment, hopen⟩
    have hmem : (⟨word, byteLength front, after⟩ : Marker) ∈ markers context.source.toList :=
      mem_markers_iff.2 ⟨front, rfl, hopen.marked⟩
    exact ⟨_, (hfound _).2 ⟨_, hmem, haccepts, rfl⟩, rfl⟩
  · exact ((pairwise_offset_markersFrom 0 false context.source.toList).filter _).map _ fun _ _ hlt => hlt
  · intro v hv comment front word after hoffset hopen
    obtain ⟨m, hm, -, rfl⟩ := (hfound v).1 hv
    obtain ⟨front', hoffset', hmarked⟩ := mem_markers_iff.1 hm
    obtain ⟨rfl, rfl⟩ := hopen.marked.unique hmarked (hoffset.trans hoffset'.symm)
    obtain ⟨gap, blank, rest, hsaid, hwhole⟩ := exists_isSaid m
    refine ⟨gap, m.remark, blank, rest, hsaid, hopen.byteLength_le_stop hsnapshot hlexemes ⟨blank, ?_⟩, ?_⟩
    · rw [← hwhole, List.append_assoc]
    · exact reason_eq m

/-- Two words in a line comment, of which the first quotes the second one, two words in a block comment with another
one inside it, and three that are in no comment or no words of their own. -/
theorem validate_spec_nested :
    let source := "let a = 1 // TODO: tidy // FIXME\n/* /* FIXME b */ c TODO*/\tlet TODO = \"TODO\" // notaTODO"
    ∃ snapshot, Snapshot.ofSource source = .ok snapshot ∧
      ((rule {}).validate { source, snapshot }).map (fun v => (v.offset, v.reason)) =
        [(13, "TODOs should be resolved (tidy // FIXME)"), (27, "FIXMEs should be resolved"),
          (39, "FIXMEs should be resolved (b)"), (52, "TODOs should be resolved")] ∧
      ∀ offset, (∃ comment front word after, byteLength front = offset ∧
          IsOpen { source, snapshot } comment front word after) ↔ offset ∈ [13, 27, 39, 52] := by
  intro source
  have hread : ((Snapshot.ofSource source).toOption.any fun snapshot =>
      ((rule {}).validate { source, snapshot }).map (fun v => (v.offset, v.reason)) ==
        [(13, "TODOs should be resolved (tidy // FIXME)"), (27, "FIXMEs should be resolved"),
          (39, "FIXMEs should be resolved (b)"), (52, "TODOs should be resolved")]) = true := by
    decide +kernel
  obtain ⟨snapshot, hsnapshot, hread⟩ := exists_of_toOption_any hread
  have hfound := eq_of_beq hread
  have hoffsets : ((rule {}).validate { source, snapshot }).map Violation.offset = [13, 27, 39, 52] := by
    have hfirst := congrArg (List.map Prod.fst) hfound
    rwa [List.map_map] at hfirst
  obtain ⟨hmem, -, -⟩ := @validate_spec { source, snapshot } {} hsnapshot
  refine ⟨snapshot, hsnapshot, hfound, fun offset => ?_⟩
  rw [← hmem, ← hoffsets, List.mem_map]

end SourceLint.OpenRemark
