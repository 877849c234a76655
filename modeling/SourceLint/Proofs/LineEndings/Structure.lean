import Mathlib.Data.List.Forall2
import Mathlib.Data.Nat.Find
import Mathlib.Order.WellFounded
import SourceLint.Context
import SourceLint.Proofs.Grammar.Faults.Source
import SourceLint.Proofs.Grammar.Forming.Spans
import SourceLint.Proofs.Grammar.Joining
import SourceLint.Proofs.LineEndings.Lexemes
import SourceLint.Proofs.Syntax.Meeting

/-!
# Texts read with carriage returns

What a text is read as with carriage returns is what it is read as without them, at the later places. Each of the two
texts stands in the other one, once with the carriage returns put in and once with them left out. So where one of them
has a structure, the other one has it as well, unless the string literals of the text do not stay as they are.

The tokens under a span and the texts of spans are then found with carriage returns as they are without them. Only a
comment that ends with its line goes on up to the newline, so a span has to be told apart from it: one that begins at a
newline could share the byte before that newline, and one that ends at a newline could be left by the comment. The spans
of nodes do not end there, since significant lexemes do not.

## Main results

* `Snapshot.ofSource_returned`: the two snapshots, or the two errors;
* `Context.Returned.accepts`, `Context.Returned.tokensIn`: the tokens under a span and those within one.
-/

namespace SourceLint

/-! ### Places without carriage returns -/

/-- Where an offset of the text with carriage returns is in the text `cs` without them. -/
def originalOffset (cs : List Char) (n : Nat) : Nat := Nat.findGreatest (fun m => returnedOffset cs m ≤ n) n

theorem originalOffset_returnedOffset (cs : List Char) (n : Nat) :
    originalOffset cs (returnedOffset cs n) = n := by
  have hreached : n ≤ returnedOffset cs n := (strictMono_returnedOffset cs).le_apply
  refine Nat.le_antisymm ?_ (Nat.le_findGreatest hreached (Nat.le_refl _))
  exact returnedOffset_le_iff.1 (Nat.findGreatest_spec (P := fun m => returnedOffset cs m ≤ returnedOffset cs n)
    hreached (Nat.le_refl _))

theorem monotone_originalOffset (cs : List Char) : Monotone (originalOffset cs) := by
  intro m n hmn
  exact Nat.findGreatest_mono (fun k hk => Nat.le_trans hk hmn) hmn

/-- A text without carriage returns is what is left of it with them when they are left out. -/
theorem filter_withReturns_eq_self {cs : List Char} (hreturn : '\r' ∉ cs) :
    (withReturns cs).filter (· != '\r') = cs := by
  rw [filter_withReturns (by decide), List.filter_eq_self]
  intro c hc
  rw [bne_iff_ne]
  rintro rfl
  exact hreturn hc

/-! ### Each text in the other one -/

namespace Embedding

/-- The text stands in the one with carriage returns. -/
def returns (cs : List Char) : Embedding where
  toRelocation := .returns cs
  rest := []
  separated := rfl
  IsEnd _ := True
  offset_inj _ _ _ _ h := (strictMono_returnedOffset cs).injective h

/-- The text with carriage returns stands in the text `cs` without them. -/
def plain (cs : List Char) : Embedding where
  offset := originalOffset cs
  text piece := String.ofList (piece.toList.filter (· != '\r'))
  monotone := monotone_originalOffset cs
  filter_text piece := by
    rw [String.toList_ofList, List.filter_filter]
    refine List.filter_congr fun c _ => ?_
    by_cases hc : c = '\r'
    · subst hc
      decide
    · simp [hc]
  text_eq piece hpiece := by
    have hfilter : piece.toList.filter (· != '\r') = piece.toList := by
      rw [List.filter_eq_self]
      intro c hc
      rw [bne_iff_ne]
      rintro rfl
      exact Bool.noConfusion (hpiece '\r' hc)
    rw [hfilter, String.ofList_toList]
  rest := []
  separated := rfl
  IsEnd n := ∃ m, n = returnedOffset cs m
  offset_inj := by
    rintro _ _ ⟨m, rfl⟩ ⟨n, rfl⟩ h
    rw [originalOffset_returnedOffset, originalOffset_returnedOffset] at h
    rw [h]

/-- Where nothing follows a text, it is read as its twin in the other text is. -/
theorem file_of_twins {e : Embedding} {lexemes others : List Lexeme} {sourceStop : Nat}
    {forest : List Node} (hrest : e.rest = []) (hzero : e.offset 0 = 0) (hend : e.IsEnd 0)
    (htwins : List.Forall₂ e.Twin lexemes others) (horder : Lexeme.InOrder 0 sourceStop lexemes)
    (hfile : Grammar.file lexemes sourceStop = .ok forest) (sourceStop' : Nat) :
    Grammar.file others sourceStop' = .ok (e.nodes forest) := by
  obtain ⟨c, hnil, hrun⟩ := Grammar.file_eq_ok_iff.1 hfile
  have hg : e.Follows (.ofDepth (2 * lexemes.length + 1)) (.ofDepth (2 * others.length + 1)) :=
    follows_ofDepth (by rw [htwins.length_eq]) (.inl hrest)
  have hstart : e.Beside ⟨lexemes, 0, sourceStop⟩ ⟨others, 0, sourceStop'⟩ :=
    ⟨⟨others, htwins, by rw [hrest, List.append_nil]⟩, hzero.symm, hend, horder, .inl hrest⟩
  obtain ⟨⟨_, d⟩, hd, rfl, honward⟩ :=
    hg.statementsBody hstart .topLevel false _ hrun fun hover => hover.1 hrest
  exact Grammar.file_eq_ok_iff.2 ⟨d, (honward.1.ahead_of_nil hnil).trans hrest, hd⟩

end Embedding

/-! ### Significant lexemes -/

namespace Lexeme

variable {cs : List Char} {x y : Lexeme} {xs ys : List Lexeme} {gap gap' : String}

namespace Returned

theorem takesReturns (h : Returned cs x y) (hx : x.isComment = false) : TakesReturns cs x y := by
  refine h.taken.resolve_right fun hline => ?_
  rw [isComment, hline.comment] at hx
  exact Bool.noConfusion hx

end Returned

/-- The lexemes that are no comments correspond as all lexemes do. -/
theorem significant_returned (h : List.Forall₂ (Returned cs) xs ys)
    (hgap : BlanksAlike gap.toList gap'.toList) :
    List.Forall₂ (fun x y => x.isComment = false ∧ Returned cs x y) (significant gap xs) (significant gap' ys) := by
  induction h generalizing gap gap' with
  | nil => exact .nil
  | @cons x y xs ys hxy _ ih =>
      have hgaps := hgap.append hxy.gap
      have hkind : y.isComment = x.isComment := by rw [isComment, isComment, hxy.kind]
      cases hx : x.isComment with
      | true =>
          rw [significant_comment hx, significant_comment (hkind.trans hx)]
          refine ih ?_
          simp only [String.toList_append]
          exact hgaps.append hxy.blanksAlike
      | false =>
          rw [significant_other hx, significant_other (hkind.trans hx)]
          have htaken := hxy.takesReturns hx
          refine .cons ⟨hx, hxy.kind, ?_, hxy.start, hxy.begins, .inl ?_⟩ (ih (.refl _))
          · simpa only [String.toList_append] using hgaps
          · exact ⟨htaken.text, htaken.stop, htaken.newline⟩

namespace Returned

theorem isOnNewLine (h : Returned cs x y) : y.isOnNewLine = x.isOnNewLine := by
  rw [Lexeme.isOnNewLine, Lexeme.isOnNewLine, Bool.eq_iff_iff, List.contains_iff_mem, List.contains_iff_mem,
    h.gap.newline]

theorem isApart (h : Returned cs x y) : y.isApart = x.isApart := by
  rw [Lexeme.isApart, Lexeme.isApart, Bool.eq_iff_iff]
  simp [h.gap.nil]

/-- The texts of two lexemes are the same, or they are quoted. -/
theorem text_cases (h : Returned cs x y) (hx : x.isComment = false) : y.text = x.text ∨
    (x.kind = .token .identifier ∨ x.kind = .token .string) ∧
      beginsQuoted x.text = true ∧ beginsQuoted y.text = true := by
  obtain ⟨htext, -, hnewline⟩ := h.takesReturns hx
  by_cases hplain : '\n' ∈ x.text.toList
  · right
    rcases hnewline hplain with hcomment | ⟨hkind, hquoted⟩
    · rw [isComment, hcomment] at hx
      exact Bool.noConfusion hx
    · refine ⟨hkind, hquoted, ?_⟩
      rw [beginsQuoted, htext, toList_returned]
      rw [beginsQuoted] at hquoted
      cases hchars : x.text.toList with
      | nil =>
          rw [hchars] at hplain
          cases hplain
      | cons c more =>
          rw [hchars, List.head?_cons, Option.any_some] at hquoted
          have hc : c ≠ '\n' := by
            rintro rfl
            exact Bool.noConfusion hquoted
          rw [withReturns_cons hc, List.head?_cons, Option.any_some, hquoted]
  · left
    rw [htext, returned, withReturns_eq_self hplain, String.ofList_toList]

theorem twin (h : Returned cs x y) (hx : x.isComment = false) : (Embedding.returns cs).Twin x y where
  kind := h.kind
  isOnNewLine := h.isOnNewLine
  text := h.text_cases hx
  isApart := h.isApart
  renamed := (h.takesReturns hx).text
  start := h.start
  stop := (h.takesReturns hx).stop
  isEnd := trivial
  gap := h.gap.filter

theorem twin_plain (h : Returned cs x y) (hx : x.isComment = false) (hreturn : '\r' ∉ x.text.toList) :
    (Embedding.plain cs).Twin y x where
  kind := h.kind.symm
  isOnNewLine := h.isOnNewLine.symm
  text := by
    refine (h.text_cases hx).imp Eq.symm fun hquoted => ?_
    rw [h.kind]
    exact ⟨hquoted.1, hquoted.2.symm⟩
  isApart := h.isApart.symm
  renamed := by
    show x.text = String.ofList (y.text.toList.filter (· != '\r'))
    rw [(h.takesReturns hx).text, toList_returned, filter_withReturns_eq_self hreturn, String.ofList_toList]
  start := by rw [h.start]; exact (originalOffset_returnedOffset cs _).symm
  stop := by rw [(h.takesReturns hx).stop]; exact (originalOffset_returnedOffset cs _).symm
  isEnd := ⟨_, (h.takesReturns hx).stop⟩
  gap := h.gap.filter.symm

end Returned

/-- The lexemes of a text without carriage returns have none. -/
theorem return_notMem {source : String} (hreturn : '\r' ∉ source.toList) (hlexemes : ofSource source = .ok xs)
    (hx : x ∈ significant "" xs) : '\r' ∉ x.text.toList := by
  obtain ⟨z, hz, -, -, htext⟩ := exists_of_mem_significant hx
  obtain ⟨front, back, hsource, -⟩ := (standsAt_of_mem hlexemes hz).1
  rw [htext]
  intro hmem
  refine hreturn ?_
  rw [hsource]
  exact List.mem_append_left _ (List.mem_append_right _ hmem)

end Lexeme

/-! ### Tokens -/

/-- The second token is what the first one is in the text `cs` with carriage returns. A comment that ends with its
line goes on up to the newline there. -/
structure Token.Returned (cs : List Char) (t t' : Token) : Prop where
  kind : t'.kind = t.kind
  location : t'.span.location = returnedOffset cs t.span.location
  stop : t'.span.stop = returnedOffset cs t.span.stop ∨
    t.kind = .comment ∧ StandsAt ['\n'] t.span.stop cs ∧ t'.span.stop = returnedOffset cs t.span.stop + 1

namespace Lexeme

variable {cs : List Char} {x y : Lexeme} {xs ys : List Lexeme}

theorem Returned.token? (h : Returned cs x y) :
    x.token? = none ∧ y.token? = none ∨
      ∃ t t', x.token? = some t ∧ y.token? = some t' ∧ Token.Returned cs t t' := by
  rw [Lexeme.token?, Lexeme.token?, h.kind]
  cases hkind : x.kind with
  | punctuation => exact .inl ⟨rfl, rfl⟩
  | token kind =>
      refine .inr ⟨_, _, rfl, rfl, rfl, h.start, h.taken.imp TakesReturns.stop fun hline => ?_⟩
      exact ⟨LexemeKind.token.inj (hkind.symm.trans hline.comment), hline.newline, hline.stop⟩

theorem filterMap_token?_returned (h : List.Forall₂ (Returned cs) xs ys) :
    List.Forall₂ (Token.Returned cs) (xs.filterMap Lexeme.token?) (ys.filterMap Lexeme.token?) := by
  induction h with
  | nil => exact .nil
  | @cons x y xs ys hxy _ ih =>
      rcases hxy.token? with ⟨hx, hy⟩ | ⟨t, t', hx, hy, htokens⟩
      · rwa [List.filterMap_cons_none hx, List.filterMap_cons_none hy]
      · rw [List.filterMap_cons_some hx, List.filterMap_cons_some hy]
        exact .cons htokens ih

end Lexeme

/-! ### Snapshots -/

namespace Snapshot

/-- The second snapshot is what the first one is for the text with carriage returns. -/
structure Returned (source : String) (snapshot snapshot' : Snapshot) : Prop where
  forest : snapshot'.forest = (Relocation.returns source.toList).nodes snapshot.forest
  tokens : List.Forall₂ (Token.Returned source.toList) snapshot.tokens.toList snapshot'.tokens.toList

/-- How a text is read, and how with carriage returns: alike, or with carriage returns not at all because of an escaped
newline in a string literal. -/
inductive ReadAlike (source : String) : Except SyntaxError Snapshot → Except SyntaxError Snapshot → Prop
  | failed (e e' : SyntaxError) : ReadAlike source (.error e) (.error e')
  | found {snapshot snapshot' : Snapshot} (h : Returned source snapshot snapshot') :
      ReadAlike source (.ok snapshot) (.ok snapshot')
  | lost {snapshot : Snapshot} (e' : SyntaxError) {token : Token} (htoken : token ∈ snapshot.tokens.toList)
      (hkind : token.kind = .string) {text : String} (htext : token.text? source = some text)
      (hescape : EscapesNewline text.toList) : ReadAlike source (.ok snapshot) (.error e')

variable {source : String} {xs ys : List Lexeme}

/-- A text with its lexemes is read as it is with carriage returns in them. -/
theorem returned_ofSource (hxs : Lexeme.ofSource source = .ok xs) (hys : Lexeme.ofSource (returned source) = .ok ys)
    (h : List.Forall₂ (Lexeme.Returned source.toList) xs ys) {snapshot : Snapshot}
    (hsnapshot : ofSource source = .ok snapshot) :
    ∃ snapshot', ofSource (returned source) = .ok snapshot' ∧ Returned source snapshot snapshot' := by
  obtain ⟨found, forest, hfound, hforest, rfl⟩ := ofSource_eq_ok_iff.1 hsnapshot
  obtain rfl := Except.ok.inj (hfound.symm.trans hxs)
  have htwins : List.Forall₂ (Embedding.returns source.toList).Twin (Lexeme.significant "" found)
      (Lexeme.significant "" ys) :=
    (Lexeme.significant_returned h (.refl _)).imp fun _ _ hxy => hxy.2.twin hxy.1
  have horder := (Lexeme.inOrder_of_ofSource hxs).significant ""
  have hforest' := Embedding.file_of_twins rfl (returnedOffset_zero _) trivial htwins horder hforest
    (returned source).utf8ByteSize
  refine ⟨_, ofSource_eq_ok_iff.2 ⟨ys, _, hys, hforest', rfl⟩, rfl, ?_⟩
  simpa [TokenStream.toList, TokenStream.ofList] using Lexeme.filterMap_token?_returned h

/-- A text without carriage returns can be read when it can be read with them. -/
theorem exists_ofSource_of_returned (hreturn : '\r' ∉ source.toList) (hxs : Lexeme.ofSource source = .ok xs)
    (hys : Lexeme.ofSource (returned source) = .ok ys) (h : List.Forall₂ (Lexeme.Returned source.toList) xs ys)
    {snapshot' : Snapshot} (hsnapshot : ofSource (returned source) = .ok snapshot') :
    ∃ snapshot, ofSource source = .ok snapshot := by
  obtain ⟨found, forest, hfound, hforest, -⟩ := ofSource_eq_ok_iff.1 hsnapshot
  obtain rfl := Except.ok.inj (hfound.symm.trans hys)
  have htwins : List.Forall₂ (Embedding.plain source.toList).Twin (Lexeme.significant "" found)
      (Lexeme.significant "" xs) := by
    have hpairs := (List.forall₂_and_left (p := fun x : Lexeme => '\r' ∉ x.text.toList) _ _).2
      ⟨fun x hx => Lexeme.return_notMem hreturn hxs hx, Lexeme.significant_returned h (.refl "".toList)⟩
    exact hpairs.flip.imp fun _ _ hxy => hxy.2.2.twin_plain hxy.2.1 hxy.1
  have horder := (Lexeme.inOrder_of_ofSource hys).significant ""
  have hzero : (Embedding.plain source.toList).offset 0 = 0 := by
    have h := originalOffset_returnedOffset source.toList 0
    rwa [returnedOffset_zero] at h
  have hforest' := Embedding.file_of_twins rfl hzero ⟨0, (returnedOffset_zero _).symm⟩ htwins horder hforest
    source.utf8ByteSize
  exact ⟨_, ofSource_eq_ok_iff.2 ⟨xs, _, hxs, hforest', rfl⟩⟩

/-- A text without carriage returns has the same structure with a carriage return before each newline, at the later
places. It may have none then, when a newline is escaped in a string literal. -/
theorem ofSource_returned (hreturn : '\r' ∉ source.toList) :
    ReadAlike source (ofSource source) (ofSource (returned source)) := by
  have hscanned := Lexeme.ofSource_returned source
  generalize hxs : Lexeme.ofSource source = plain at hscanned
  generalize hys : Lexeme.ofSource (returned source) = inReturns at hscanned
  cases hsnapshot : ofSource source with
  | error e =>
      cases hsnapshot' : ofSource (returned source) with
      | error e' => exact .failed e e'
      | ok snapshot' =>
          exfalso
          obtain ⟨ys, -, hlexemes', -⟩ := ofSource_eq_ok_iff.1 hsnapshot'
          obtain rfl := hys.symm.trans hlexemes'
          cases hscanned with
          | found h =>
              obtain ⟨snapshot, hfound⟩ := exists_ofSource_of_returned hreturn hxs hys h hsnapshot'
              rw [hsnapshot] at hfound
              cases hfound
  | ok snapshot =>
      obtain ⟨xs, -, hlexemes, -⟩ := ofSource_eq_ok_iff.1 hsnapshot
      obtain rfl := hxs.symm.trans hlexemes
      cases hscanned with
      | found h =>
          obtain ⟨snapshot', hsnapshot', hreturned⟩ := returned_ofSource hxs hys h hsnapshot
          rw [hsnapshot']
          exact .found hreturned
      | @lost _ e' x hx hkind hescape =>
          have htoken : x.token? = some ⟨.string, x.span⟩ := by rw [Lexeme.token?, hkind]
          have hmem : ⟨.string, x.span⟩ ∈ snapshot.tokens.toList := by
            rw [toList_tokens hsnapshot hxs]
            exact List.mem_filterMap.2 ⟨x, hx, htoken⟩
          have htext := (Lexeme.Tiles.of_ofSource hxs).texts x hx
          cases hsnapshot' : ofSource (returned source) with
          | error e' => exact .lost e' hmem rfl htext hescape
          | ok snapshot' =>
              obtain ⟨ys, -, hlexemes', -⟩ := ofSource_eq_ok_iff.1 hsnapshot'
              rw [hys] at hlexemes'
              cases hlexemes'

end Snapshot

/-! ### Spans -/

namespace Relocation

variable {cs : List Char}

@[simp] theorem offset_returns (n : Nat) : (returns cs).offset n = returnedOffset cs n := rfl

theorem isEmpty_span_returns (cs : List Char) (range : Span) : ((returns cs).span range).isEmpty = range.isEmpty := by
  have hempty : ∀ r : Span, r.isEmpty = true ↔ r.stop ≤ r.location := by
    intro r
    rw [Span.isEmpty, beq_iff_eq, Span.stop]
    omega
  rw [Bool.eq_iff_iff, hempty, hempty, location_span, stop_span, offset_returns, offset_returns, returnedOffset_le_iff]

theorem covers_span_returns (outer inner : Span) :
    ((returns cs).span outer).covers ((returns cs).span inner) = outer.covers inner := by
  simp only [Span.covers, location_span, stop_span, offset_returns, returnedOffset_le_iff]

end Relocation

/-! ### Places of tokens -/

namespace Token.Returned

variable {cs : List Char} {t t' : Token}

/-- A token goes on behind an offset with carriage returns when it does so without them. A newline is no such offset. -/
theorem lt_stop_iff (h : Token.Returned cs t t') {offset : Nat} (hoffset : ¬StandsAt ['\n'] offset cs) :
    returnedOffset cs offset < t'.span.stop ↔ offset < t.span.stop := by
  rcases h.stop with hstop | ⟨-, hnewline, hstop⟩
  · rw [hstop, returnedOffset_lt_iff]
  · have hne : offset ≠ t.span.stop := by
      rintro rfl
      exact hoffset hnewline
    rw [hstop, Nat.lt_succ_iff, returnedOffset_le_iff]
    omega

/-- A token ends before an offset with carriage returns when it does so without them, unless it is a comment that ends
there with its line. -/
theorem stop_le_iff (h : Token.Returned cs t t') {offset : Nat}
    (hoffset : t.kind = .comment → StandsAt ['\n'] t.span.stop cs → t.span.stop ≠ offset) :
    t'.span.stop ≤ returnedOffset cs offset ↔ t.span.stop ≤ offset := by
  rcases h.stop with hstop | ⟨hkind, hnewline, hstop⟩
  · rw [hstop, returnedOffset_le_iff]
  · have hne := hoffset hkind hnewline
    rw [hstop, Nat.succ_le_iff, returnedOffset_lt_iff]
    omega

theorem span_eq (h : Token.Returned cs t t') (hkind : t.kind ≠ .comment) :
    t'.span = (Relocation.returns cs).span t.span := by
  have hstop := h.stop.resolve_right fun hline => hkind hline.1
  rw [Relocation.span, Relocation.offset_returns, Relocation.offset_returns, ← h.location, ← hstop]
  simp [Span.ofBounds, Span.stop]

theorem text?_eq {source : String} (h : Token.Returned source.toList t t') (hkind : t.kind ≠ .comment) :
    t'.text? (returned source) = (t.text? source).map returned := by
  rw [Token.text?, Token.text?, h.span_eq hkind, Span.slice?_returns]

end Token.Returned

/-! ### Contexts -/

namespace Context

/-- No comment that ends with its line ends at the offset. -/
def EndsNoRemark (context : Context) (offset : Nat) : Prop :=
  ∀ t ∈ context.snapshot.tokens.toList, t.kind = .comment →
    StandsAt ['\n'] t.span.stop context.source.toList → t.span.stop ≠ offset

/-- Two texts as rules see them, one without carriage returns, and the same one with a carriage return before each
newline. -/
structure Returned (context context' : Context) : Prop where
  plain : '\r' ∉ context.source.toList
  source : context'.source = returned context.source
  snapshot : Snapshot.Returned context.source context.snapshot context'.snapshot
  found : Snapshot.ofSource context.source = .ok context.snapshot
  found' : Snapshot.ofSource context'.source = .ok context'.snapshot
  lines : context.lines = .ofString context.source
  lines' : context'.lines = .ofString context'.source

namespace Returned

variable {context context' : Context} {node : Node}

theorem contents? (h : Returned context context') (range : Span) :
    context'.contents? ((Relocation.returns context.source.toList).span range) =
      (context.contents? range).map returned := by
  rw [Context.contents?, Context.contents?, h.source, Span.slice?_returns]

theorem lineOf (h : Returned context context') (offset : Nat) :
    context'.lines.lineOf (returnedOffset context.source.toList offset) = context.lines.lineOf offset := by
  rw [h.lines, h.lines', h.source, LineIndex.lineOf_returned]

/-! ### Tokens under spans -/

theorem kindsOverlapping (h : Returned context context') {range : Span}
    (hrange : ¬StandsAt ['\n'] range.location context.source.toList) :
    context'.snapshot.tokens.kindsOverlapping ((Relocation.returns context.source.toList).span range) =
      context.snapshot.tokens.kindsOverlapping range := by
  have hempty := Relocation.isEmpty_span_returns context.source.toList range
  cases hrangeEmpty : range.isEmpty with
  | true =>
      rw [TokenStream.kindsOverlapping, TokenStream.kindsOverlapping, TokenStream.overlapping,
        TokenStream.overlapping, hempty, hrangeEmpty]
      rfl
  | false =>
      have hfound := TokenStream.overlapping_eq_filter (Snapshot.ascending_ofSource h.found) hrangeEmpty
      have hfound' := TokenStream.overlapping_eq_filter (Snapshot.ascending_ofSource h.found')
        (hempty.trans hrangeEmpty)
      rw [TokenStream.ofList_toList] at hfound hfound'
      rw [TokenStream.kindsOverlapping, TokenStream.kindsOverlapping, hfound, hfound', ← List.forall₂_eq_eq_eq,
        List.forall₂_map_left_iff, List.forall₂_map_right_iff]
      refine (forall₂_filter h.snapshot.tokens fun t t' htoken => ?_).flip.imp fun _ _ htoken => htoken.kind
      simp only [Relocation.location_span, Relocation.stop_span, Relocation.offset_returns, htoken.location,
        htoken.lt_stop_iff hrange, returnedOffset_lt_iff]

/-- A filter accepts the tokens under a span with carriage returns when it accepts them without. -/
theorem accepts (h : Returned context context') (filter : TokenFilter) {range : Span}
    (hrange : ¬StandsAt ['\n'] range.location context.source.toList) :
    context'.accepts filter ((Relocation.returns context.source.toList).span range) =
      context.accepts filter range := by
  rw [Context.accepts, Context.accepts, h.kindsOverlapping hrange]

/-- The tokens within a span that ends with no comment. -/
theorem tokensIn (h : Returned context context') {range : Span} (hrange : context.EndsNoRemark range.stop) :
    List.Forall₂ (Token.Returned context.source.toList) (context.tokensIn range)
      (context'.tokensIn ((Relocation.returns context.source.toList).span range)) := by
  have hfound := TokenStream.tokensIn_eq_filter (Snapshot.ascending_ofSource h.found) range
  have hfound' := TokenStream.tokensIn_eq_filter (Snapshot.ascending_ofSource h.found')
    ((Relocation.returns context.source.toList).span range)
  rw [TokenStream.ofList_toList] at hfound hfound'
  rw [Context.tokensIn, Context.tokensIn, hfound, hfound']
  have htokens := (List.forall₂_and_left _ _).2 ⟨hrange, h.snapshot.tokens⟩
  refine (forall₂_filter htokens fun t t' htoken => ?_).imp fun _ _ htoken => htoken.2
  simp only [Span.covers, Relocation.location_span, Relocation.stop_span, Relocation.offset_returns,
    htoken.2.location, returnedOffset_le_iff, htoken.2.stop_le_iff htoken.1]

/-! ### Nodes -/

/-- Where a significant lexeme begins or ends, no comment ends with its line. -/
theorem endsNoRemark_of_marks (h : Returned context context') {lexemes : List Lexeme}
    (hlexemes : Lexeme.ofSource context.source = .ok lexemes) {offset : Nat}
    (hmarks : (startOf context.source lexemes).Marks offset) : context.EndsNoRemark offset := by
  intro t ht hkind hnewline hstop
  obtain ⟨x, hx, hoffset⟩ := hmarks
  obtain ⟨y, hy, hcomment, hstart, htext⟩ := Lexeme.exists_of_mem_significant hx
  have htiles := Lexeme.Tiles.of_ofSource hlexemes
  have hlexeme : ∃ z ∈ lexemes, z.token? = some t := by
    rw [Snapshot.toList_tokens h.found hlexemes] at ht
    exact List.mem_filterMap.1 ht
  obtain ⟨z, hz, htoken⟩ := hlexeme
  obtain ⟨hzkind, hzspan⟩ := Lexeme.token?_eq_some_iff.1 htoken
  rcases hoffset with hoffset | hoffset
  · -- lexemes do not begin with newlines
    obtain ⟨lexemes', forest', hlexemes', -⟩ := Snapshot.ofSource_eq_ok_iff.1 h.found'
    have hscanned := Lexeme.ofSource_returned context.source
    rw [hlexemes, ← h.source, hlexemes'] at hscanned
    cases hscanned with
    | found hpairs =>
        have hbegins := ((List.forall₂_and_left (p := fun x : Lexeme => ¬StandsAt ['\n'] x.start context.source.toList)
          _ _).1 (hpairs.imp fun _ _ hxy => ⟨hxy.begins, hxy⟩)).1
        refine hbegins y hy ?_
        rwa [← hstart, ← hoffset, ← hstop]
  · -- no other lexeme ends with the comment
    have hystop : y.stop = offset := by
      rw [hoffset, Lexeme.stop, Lexeme.stop, hstart, htext]
    have hzstop : z.stop = offset := by
      rw [← hstop, ← hzspan]
      rfl
    have hysome := htiles.nonempty y hy
    have hzsome := htiles.nonempty z hz
    have hyhas : y.span.Has (offset - 1) := ⟨by show y.start ≤ _; omega, by show _ < y.stop; omega⟩
    have hzhas : z.span.Has (offset - 1) := ⟨by show z.start ≤ _; omega, by show _ < z.stop; omega⟩
    obtain rfl := htiles.eq_of_has hy hz hyhas hzhas
    rw [Lexeme.isComment, hzkind, hkind] at hcomment
    exact Bool.noConfusion hcomment

/-- The elements and the body of a node end with no comment. -/
theorem endsNoRemark_of_mem (h : Returned context context')
    (hnode : node ∈ Node.listingAll context.snapshot.forest) :
    (∀ e ∈ node.elements, context.EndsNoRemark e.span.stop) ∧
      ∀ body, node.body = some body → context.EndsNoRemark body.stop := by
  obtain ⟨lexemes, later, hlexemes, -, hforms⟩ := Snapshot.forms_ofSource h.found
  have hformed := hforms.formed node hnode
  constructor
  · exact fun e he => h.endsNoRemark_of_marks hlexemes (hformed.elementsInside e he).1.ends
  · exact fun body hbody => h.endsNoRemark_of_marks hlexemes (hformed.bodyInside body hbody).1.ends

end Returned

end Context

/-! ### Walks through nodes -/

namespace Relocation

variable (r : Relocation)

theorem listingAll_nodes (forest : List Node) :
    Node.listingAll (r.nodes forest) = (Node.listingAll forest).map r.node := by
  rw [← Node.preOrder_eq_listingAll, ← Node.preOrder_eq_listingAll]
  fun_induction Node.preOrder forest with
  | case1 => rw [nodes_nil, Node.preOrder, List.map_nil]
  | case2 node pending ih =>
      rw [nodes_cons, Node.preOrder, children_node, ← nodes_append, ih, List.map_cons]

theorem levels_nodes (forest : List Node) : Node.levels (r.nodes forest) = (Node.levels forest).map r.node := by
  fun_induction Node.levels forest with
  | case1 => rw [nodes_nil, Node.levels, List.map_nil]
  | case2 node nodes ih =>
      have hchildren : (r.nodes (node :: nodes)).flatMap Node.children =
          r.nodes ((node :: nodes).flatMap Node.children) := by
        rw [nodes_eq_map, List.flatMap_map]
        simp only [children_node, nodes_eq_map, List.map_flatMap]
      rw [nodes_cons] at hchildren ⊢
      rw [Node.levels, hchildren, ih, List.map_append, List.map_cons, r.nodes_eq_map nodes]

end Relocation

end SourceLint
