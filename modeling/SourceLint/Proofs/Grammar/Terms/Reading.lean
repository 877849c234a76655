import SourceLint.Proofs.Grammar.Embedding.Basic
import SourceLint.Proofs.Grammar.Levels.Termination
import SourceLint.Proofs.Grammar.Structure
import SourceLint.Proofs.Grammar.Terms.Printing

/-!
# Terms are read back from their texts

The text of a term is read as a file that consists of the term, and gives its nodes with the exact spans of what was
printed. A term is read as an expression up to the mark behind it, and that carries the induction: the items of a
literal and the arguments of a call are such terms, with a comma, a colon or a closing delimiter behind each.

## Main definitions

* `Round.LeadsTo` — how far some rounds of a repetition have come.
* `Term.IsRead` — what it means that a term is read as an expression.

## Main results

* `Term.isRead`
* `Snapshot.forest_ofSource_print`

## Implementation notes

The grammar of unbounded depth reads the same as the one with a bound, and is its own next level. So levels do not
occur in the induction.
-/

namespace SourceLint

/-! ### Repetitions -/

section Rounds

variable {σ β : Type} {round : σ → Cursor → Outcome (Round σ β × Cursor)} {state state' state'' : σ}
    {c c' c'' : Cursor}

/-- A repetition that begins in a state at a place comes to another state at another place: what its rounds yield
from there, they yield from the beginning. -/
def Round.LeadsTo (round : σ → Cursor → Outcome (Round σ β × Cursor)) (state : σ) (c : Cursor) (state' : σ)
    (c' : Cursor) : Prop :=
  ∀ r, repeatRounds round state' c' = .ok r → repeatRounds round state c = .ok r

namespace Round.LeadsTo

theorem refl (round : σ → Cursor → Outcome (Round σ β × Cursor)) (state : σ) (c : Cursor) :
    LeadsTo round state c state c := fun _ hr => hr

theorem trans (h : LeadsTo round state c state' c') (h' : LeadsTo round state' c' state'' c'') :
    LeadsTo round state c state'' c'' := fun r hr => h r (h' r hr)

/-- A round that goes on has taken a lexeme, so the bound on the rounds allows for those behind it. -/
theorem again (hround : round state c = .ok (.again state', c')) (hlt : c'.ahead.length < c.ahead.length) :
    LeadsTo round state c state' c' := by
  intro r hr
  obtain ⟨x, ahead, hahead⟩ := List.exists_cons_of_length_pos (Nat.zero_lt_of_lt hlt)
  have hbound : c'.ahead.length ≤ ahead.length := by
    rw [hahead, List.length_cons] at hlt
    exact Nat.le_of_lt_succ hlt
  exact boundedRounds_eq_ok_iff.2
    (.inr ⟨x, ahead, state', c', hahead, hround, boundedRounds_mono hr hbound⟩)

/-- The repetition is over with the round that is done. -/
theorem done {result : β} {later : Cursor} (h : LeadsTo round state c state' c')
    (hround : round state' c' = .ok (.done result, later)) :
    repeatRounds round state c = .ok (result, later) :=
  h _ (boundedRounds_eq_ok_iff.2 (.inl hround))

end Round.LeadsTo

end Rounds

/-- The span between two offsets of which the second one is counted from the first one. -/
theorem Span.ofBounds_add (offset length : Nat) : ofBounds offset (offset + length) = ⟨offset, length⟩ := by
  rw [ofBounds, Nat.add_sub_cancel_left]

namespace Term

open Lexeme Grammar

variable {g : Grammar} {c later : Cursor} {x : Lexeme} {others rest : List Lexeme} {t : Term}
    {offset sourceStop : Nat}

/-! ### Marks and names -/

theorem stop_mark {d : Char} (hd : d ∈ marks) (offset : Nat) : (mark d offset).stop = offset + 1 := by
  rw [Lexeme.stop, mark, utf8ByteSize_ofList, byteLength_mark hd, byteLength_nil]

theorem advance_mark {d : Char} (hd : d ∈ marks) (offset sourceStop : Nat) (rest : List Lexeme) :
    Cursor.advance ⟨mark d offset :: rest, offset, sourceStop⟩ = ⟨rest, offset + 1, sourceStop⟩ := by
  rw [Cursor.advance_of_cons rfl, stop_mark hd]

theorem isSymbol_mark (d : Char) (offset : Nat) (text : String) :
    (mark d offset).isSymbol text = (String.ofList [d] == text) := rfl

theorem advance_word (name : Word) (offset sourceStop : Nat) (rest : List Lexeme) :
    Cursor.advance ⟨name.lexeme offset :: rest, offset, sourceStop⟩ = ⟨rest, offset + name.size, sourceStop⟩ := by
  rw [Cursor.advance_of_cons rfl, Lexeme.stop, Word.lexeme, name.utf8ByteSize_text]

/-- A name is spelled as it stands, since there is no white space in it. -/
theorem spelling_word (name : Word) (offset : Nat) : Lexeme.spelling [name.lexeme offset] = name.text := by
  have hword : ∀ d ∈ name.chars, (d.isAlphanum || d == '_') = true :=
    List.forall_mem_cons.2 ⟨isAlphanum_of_isAlpha name.isLetter, name.areWordChars⟩
  have hkept : name.chars.filter (fun d => !isBlank d) = name.chars := by
    refine List.filter_eq_self.2 fun d hd => ?_
    exact of_not_isHigh (P := fun d => (d.isAlphanum || d == '_') = true → (!isBlank d) = true) (by decide)
      (not_isHigh_of_isAlphanum (hword d hd)) (hword d hd)
  rw [Lexeme.spelling, List.flatMap_nil, List.append_nil, Word.lexeme, Word.text, String.toList_ofList, hkept]

/-! ### What comes behind a term -/

/-- The lexemes are over, or they go on with one of some marks. -/
def StopsAt (ds : List Char) (lexemes : List Lexeme) : Prop :=
  ∀ x ∈ lexemes.head?, ∃ d ∈ ds, ∃ offset, x = mark d offset

/-- The marks that may come behind a term. -/
def separators : List Char := [',', ':', ')', ']']

theorem stopsAt_nil (ds : List Char) : StopsAt ds [] := fun x hx => (Option.not_mem_none x hx).elim

theorem stopsAt_mark {ds : List Char} {d : Char} (hd : d ∈ ds) (offset : Nat) (lexemes : List Lexeme) :
    StopsAt ds (mark d offset :: lexemes) := by
  rintro _ ⟨⟩
  exact ⟨d, hd, offset, rfl⟩

namespace StopsAt

variable {ds ds' : List Char}

theorem mono (h : StopsAt ds rest) (hsubset : ds ⊆ ds') : StopsAt ds' rest := by
  intro x hx
  obtain ⟨d, hd, hmark⟩ := h x hx
  exact ⟨d, hsubset hd, hmark⟩

theorem append (h : StopsAt ds others) (hrest : StopsAt ds rest) : StopsAt ds (others ++ rest) := by
  cases others with
  | nil => exact hrest
  | cons x others => exact h

end StopsAt

/-- A mark that may come behind a term is no operator and begins no suffix. -/
theorem mark_of_separator {d : Char} (hd : d ∈ separators) (offset : Nat) :
    (mark d offset).text ∉ [".", "(", "[", "\x7b"] ∧ (mark d offset).isPostfixOperator = false ∧
      (mark d offset).isOperator = false :=
  forall_of_all (P := fun d => (mark d 0).text ∉ [".", "(", "[", "\x7b"] ∧
    (mark d 0).isPostfixOperator = false ∧ (mark d 0).isOperator = false) (by decide) d hd

/-- No suffix comes behind a term. -/
theorem suffixRound_of_stopsAt (hstops : StopsAt separators c.ahead) (trailing : Bool) (first : Cursor)
    (state : OperandState) : g.suffixRound trailing first state c = .ok (.done state.nodes, c) := by
  rw [suffixRound]
  cases hpeek : c.peek? with
  | none => rfl
  | some x =>
      obtain ⟨d, hd, place, rfl⟩ := hstops x hpeek
      obtain ⟨htext, hpostfix, -⟩ := mark_of_separator hd place
      simp only [List.mem_cons, List.not_mem_nil, or_false, not_or] at htext
      simp [htext, hpostfix]

/-- No cast comes behind a term. -/
theorem castRound_of_stopsAt (hstops : StopsAt separators c.ahead) : castRound () c = .ok (.done (), c) := by
  have hkeyword : ∀ word, c.atKeyword word = false := by
    intro word
    rw [Cursor.atKeyword, Cursor.next]
    cases hpeek : c.peek? with
    | none => rfl
    | some x =>
        obtain ⟨d, -, place, rfl⟩ := hstops x hpeek
        rfl
  rw [castRound, hkeyword, hkeyword]
  rfl

/-! ### What begins a term -/

/-- A term begins with a bracket, or with a name behind which it ends or a parenthesis comes. -/
theorem exists_lexemes_eq (t : Term) (offset : Nat) :
    ∃ x others, t.lexemes offset = x :: others ∧
      (x = mark '[' offset ∨ (∃ name, x = Word.lexeme name offset) ∧ StopsAt ['('] others) := by
  cases t with
  | word name => exact ⟨_, [], rfl, .inr ⟨⟨name, rfl⟩, stopsAt_nil _⟩⟩
  | array items => exact ⟨_, _, rfl, .inl rfl⟩
  | dictionary entries => exact ⟨_, _, rfl, .inl rfl⟩
  | call callee arguments => exact ⟨_, _, rfl, .inr ⟨⟨callee, rfl⟩, stopsAt_mark (by decide) _ _⟩⟩

theorem first_of_lexemes (h : t.lexemes offset = x :: others) :
    x = mark '[' offset ∨ (∃ name, x = Word.lexeme name offset) ∧ StopsAt ['('] others := by
  obtain ⟨y, others', hlexemes, hy⟩ := t.exists_lexemes_eq offset
  obtain ⟨rfl, rfl⟩ := List.cons.inj (h.symm.trans hlexemes)
  exact hy

theorem length_lt_of_lexemes (t : Term) (offset : Nat) (rest : List Lexeme) :
    rest.length < (t.lexemes offset ++ rest).length := by
  obtain ⟨x, others, hlexemes, -⟩ := t.exists_lexemes_eq offset
  rw [hlexemes, List.cons_append, List.length_cons, List.length_append]
  omega

theorem isSymbol_of_lexemes (h : t.lexemes offset = x :: others) (text : String) (htext : text ≠ "[") :
    x.isSymbol text = false := by
  obtain rfl | ⟨⟨name, rfl⟩, -⟩ := first_of_lexemes h
  · exact beq_false_of_ne htext.symm
  · rfl

theorem isCloser_of_lexemes (h : t.lexemes offset = x :: others) : x.isCloser = false := by
  rw [Lexeme.isCloser, isSymbol_of_lexemes h ")" (by decide), isSymbol_of_lexemes h "]" (by decide),
    isSymbol_of_lexemes h "\x7d" (by decide)]
  rfl

/-- What begins a term is an identifier or punctuation, and it is no modifier. -/
theorem kind_of_lexemes (h : t.lexemes offset = x :: others) :
    (x.kind = .token .identifier ∨ x.kind = .punctuation) ∧ modifierWords.contains x.text = false := by
  obtain rfl | ⟨⟨name, rfl⟩, -⟩ := first_of_lexemes h
  · exact ⟨.inr rfl, (by decide : modifierWords.contains (mark '[' 0).text = false)⟩
  · refine ⟨.inl rfl, Bool.eq_false_iff.2 fun hmodifier => ?_⟩
    have hkeyword : ∀ word ∈ modifierWords, keywords.contains word = true := by decide
    exact Bool.noConfusion ((hkeyword _ (List.contains_iff_mem.1 hmodifier)).symm.trans name.isNoKeyword)

/-- A name with which a term begins is no label, unless the term is a name and a colon comes behind it. -/
theorem noLabel_of_lexemes (h : t.lexemes offset = x :: others) (hstops : StopsAt [',', ')', ']'] rest) :
    (x.isWord && (others ++ rest)[0]?.any fun l => l.isSymbol ":") = false := by
  obtain rfl | ⟨-, hcall⟩ := first_of_lexemes h
  · rfl
  · have hbehind : StopsAt ['(', ',', ')', ']'] (others ++ rest) :=
      (hcall.mono (by decide)).append (hstops.mono (by decide))
    rw [← List.head?_eq_getElem?]
    cases hhead : (others ++ rest).head? with
    | none => rw [Option.any_none, Bool.and_false]
    | some l =>
        obtain ⟨d, hd, place, rfl⟩ := hbehind l hhead
        have hcolon : (mark d place).isSymbol ":" = false :=
          forall_of_all (P := fun d => (mark d 0).isSymbol ":" = false) (by decide) d hd
        rw [Option.any_some, hcolon, Bool.and_false]

/-- What begins a term is its operand, and nothing before an operand. -/
theorem operandPrefixLength_lexemes (t : Term) (offset : Nat) (rest : List Lexeme) :
    operandPrefixLength (t.lexemes offset ++ rest) = 0 := by
  obtain ⟨x, others, hlexemes, hx⟩ := t.exists_lexemes_eq offset
  have hword : ∀ word, x.isKeyword word = false := by
    obtain rfl | ⟨⟨name, rfl⟩, -⟩ := hx
    all_goals exact fun _ => rfl
  have hoperator : x.isOperator = false := by
    obtain rfl | ⟨⟨name, rfl⟩, -⟩ := hx
    · exact (by decide : (mark '[' 0).isOperator = false)
    · rfl
  rw [hlexemes, List.cons_append, operandPrefixLength.eq_def]
  simp [hword, hoperator]

/-! ### Operands -/

/-- An operand is what its first part has become when the rounds of its suffixes have come to a separator. -/
theorem operand_of_primary {nodes : List Node} {middle : Cursor} {state : OperandState} {trailing : Bool}
    (hprimary : g.primary c = .ok (some nodes, middle))
    (hsuffix : Round.LeadsTo (g.suffixRound trailing c) ⟨nodes, middle⟩ middle state later)
    (hstops : StopsAt separators later.ahead) : g.operand trailing c = .ok (some state.nodes, later) := by
  have hrounds := hsuffix.done (suffixRound_of_stopsAt hstops trailing c state)
  simp only [operand, hprimary, bind, Except.bind, hrounds, pure, Except.pure]

/-- An operand with nothing before it and a separator behind it is an expression. -/
theorem expression_of_operand {nodes : List Node} {trailing : Bool} (hfront : operandPrefixLength c.ahead = 0)
    (hoperand : unbounded.operand trailing c = .ok (some nodes, later))
    (hstops : StopsAt separators later.ahead) :
    unbounded.expression trailing c = .ok (⟨nodes, true⟩, later) := by
  have hround : unbounded.operandRound trailing ⟨[], false⟩ c = .ok (.done ⟨nodes, true⟩, later) := by
    have hcasts := (Round.LeadsTo.refl castRound () later).done (castRound_of_stopsAt hstops)
    have hnone : c.advanceBy 0 = c := rfl
    simp only [operandRound, hfront, hnone, hoperand, bind, Except.bind, hcasts, List.nil_append]
    cases hpeek : later.peek? with
    | none => rfl
    | some x =>
        obtain ⟨d, hd, place, rfl⟩ := hstops x hpeek
        obtain ⟨-, -, hoperator⟩ := mark_of_separator hd place
        simp [hoperator, pure, Except.pure]
  rw [← expressionBody_unbounded, expressionBody]
  exact (Round.LeadsTo.refl _ _ c).done hround

/-- The term is read as an expression from its lexemes, up to a separator behind it. -/
def IsRead (t : Term) : Prop :=
  ∀ offset sourceStop rest, StopsAt separators rest →
    unbounded.expression true ⟨t.lexemes offset ++ rest, offset, sourceStop⟩ =
      .ok (⟨t.forest offset, true⟩, ⟨rest, offset + t.size, sourceStop⟩)

theorem IsRead.expressionOrLexeme (ht : t.IsRead) (offset sourceStop : Nat) (hstops : StopsAt separators rest) :
    unbounded.expressionOrLexeme ⟨t.lexemes offset ++ rest, offset, sourceStop⟩ =
      .ok (t.forest offset, ⟨rest, offset + t.size, sourceStop⟩) := by
  have hmoves : Cursor.hasStalled ⟨t.lexemes offset ++ rest, offset, sourceStop⟩
      ⟨rest, offset + t.size, sourceStop⟩ = false :=
    beq_false_of_ne (Nat.ne_of_gt (t.length_lt_of_lexemes offset rest))
  simp [Grammar.expressionOrLexeme, ht offset sourceStop rest hstops, bind, Except.bind, hmoves, pure, Except.pure]

/-! ### Terms with commas between them -/

/-- The rounds of a group pass over commas, and over terms, whose nodes they keep. -/
structure ReadsItems {σ β : Type} (round : σ → Cursor → Outcome (Round σ β × Cursor)) (pack : List Node → σ) :
    Prop where
  comma : ∀ nodes offset sourceStop rest, Round.LeadsTo round (pack nodes)
    ⟨mark ',' offset :: rest, offset, sourceStop⟩ (pack nodes) ⟨rest, offset + 1, sourceStop⟩
  term : ∀ {t : Term}, t.IsRead → ∀ nodes offset sourceStop {rest}, StopsAt [',', ')', ']'] rest →
    Round.LeadsTo round (pack nodes) ⟨t.lexemes offset ++ rest, offset, sourceStop⟩
      (pack (nodes ++ t.forest offset)) ⟨rest, offset + t.size, sourceStop⟩

/-- So they pass over terms with commas between them. -/
theorem ReadsItems.all {σ β : Type} {round : σ → Cursor → Outcome (Round σ β × Cursor)} {pack : List Node → σ}
    (h : ReadsItems round pack) {items : List Term} (hitems : ∀ t ∈ items, t.IsRead) (nodes : List Node)
    (offset sourceStop : Nat) (hstops : StopsAt [')', ']'] rest) :
    Round.LeadsTo round (pack nodes) ⟨lexemesAll items offset ++ rest, offset, sourceStop⟩
      (pack (nodes ++ forestAll items offset))
      ⟨rest, offset + byteLength (charsAll items), sourceStop⟩ := by
  induction items generalizing nodes offset with
  | nil =>
      rw [forestAll, List.append_nil]
      exact .refl _ _ _
  | cons t others ih =>
      have ht := hitems t List.mem_cons_self
      rw [lexemesAll, forestAll, charsAll, byteLength_append]
      cases others with
      | nil =>
          rw [forestAll, List.append_nil]
          simp only [List.isEmpty_nil, if_true, List.append_nil, byteLength_nil, Nat.add_zero]
          exact h.term ht nodes offset sourceStop (hstops.mono (by decide))
      | cons u others =>
          have hrest := ih (fun t ht => hitems t (List.mem_cons_of_mem _ ht)) (nodes ++ t.forest offset)
            (offset + t.size + 1)
          have hplace : offset + (byteLength t.chars + byteLength (',' :: charsAll (u :: others))) =
              offset + t.size + 1 + byteLength (charsAll (u :: others)) := by
            rw [byteLength_mark (by decide), size]
            omega
          simp only [List.isEmpty_cons, Bool.false_eq_true, if_false, List.append_assoc, List.cons_append]
          rw [hplace, ← List.append_assoc nodes]
          exact ((h.term ht nodes offset sourceStop (stopsAt_mark (by decide) _ _)).trans
            (h.comma _ _ _ _)).trans hrest

theorem argumentRound_of_isRead (ht : t.IsRead) (opener : Lexeme) (nodes : List Node) (offset sourceStop : Nat)
    (hstops : StopsAt [',', ')', ']'] rest) :
    unbounded.argumentRound opener ")" nodes ⟨t.lexemes offset ++ rest, offset, sourceStop⟩ =
      .ok (.again (nodes ++ t.forest offset), ⟨rest, offset + t.size, sourceStop⟩) := by
  have hterm := ht.expressionOrLexeme offset sourceStop (hstops.mono (by decide))
  obtain ⟨x, others, hlexemes, -⟩ := t.exists_lexemes_eq offset
  have hlabel := noLabel_of_lexemes hlexemes hstops
  rw [hlexemes, List.cons_append] at hterm ⊢
  simp only [argumentRound, Cursor.peek?, Cursor.peekAt?, List.head?_cons, List.getElem?_cons_succ,
    isSymbol_of_lexemes hlexemes ")" (by decide), isSymbol_of_lexemes hlexemes "," (by decide),
    isSymbol_of_lexemes hlexemes ":" (by decide), isCloser_of_lexemes hlexemes, hlabel, Bool.or_self,
    Bool.false_eq_true, if_false, hterm, bind, Except.bind, pure, Except.pure]

theorem readsItems_arguments (opener : Lexeme) :
    ReadsItems (unbounded.argumentRound opener ")") fun nodes => nodes where
  comma nodes offset sourceStop rest :=
    .again (by simp [argumentRound, Cursor.peek?, isSymbol_mark, advance_mark (d := ',') (by decide)])
      (Nat.lt_succ_self _)
  term ht nodes offset sourceStop rest hstops :=
    .again (argumentRound_of_isRead ht opener nodes offset sourceStop hstops) (length_lt_of_lexemes _ offset rest)

/-- Arguments are read behind their opening parenthesis. -/
theorem arguments_of_isRead {items : List Term} (hitems : ∀ t ∈ items, t.IsRead) (opener : Lexeme)
    (offset sourceStop : Nat) (rest : List Lexeme) :
    unbounded.arguments opener ")"
        ⟨lexemesAll items offset ++ mark ')' (offset + byteLength (charsAll items)) :: rest, offset, sourceStop⟩ =
      .ok ((forestAll items offset, mark ')' (offset + byteLength (charsAll items))),
        ⟨rest, offset + byteLength (charsAll items) + 1, sourceStop⟩) := by
  have hclose : unbounded.argumentRound opener ")" (forestAll items offset)
      ⟨mark ')' (offset + byteLength (charsAll items)) :: rest, offset + byteLength (charsAll items), sourceStop⟩ =
        .ok (.done (forestAll items offset, mark ')' (offset + byteLength (charsAll items))),
          ⟨rest, offset + byteLength (charsAll items) + 1, sourceStop⟩) := by
    simp [argumentRound, Cursor.peek?, isSymbol_mark, advance_mark (d := ')') (by decide)]
  exact ((readsItems_arguments opener).all hitems [] offset sourceStop
    (stopsAt_mark (by decide) (offset + byteLength (charsAll items)) rest)).done hclose

/-! ### Items of a literal -/

/-- A term in a literal is passed over, whether a colon has made it a dictionary or not. -/
theorem leadsTo_item (ht : t.IsRead) (opener : Lexeme) (nodes : List Node) (isDictionary : Bool)
    (offset sourceStop : Nat) (hstops : StopsAt separators rest) :
    Round.LeadsTo (unbounded.itemRound opener) (nodes, isDictionary)
      ⟨t.lexemes offset ++ rest, offset, sourceStop⟩ (nodes ++ t.forest offset, isDictionary)
      ⟨rest, offset + t.size, sourceStop⟩ := by
  refine .again ?_ (t.length_lt_of_lexemes offset rest)
  have hterm := ht.expressionOrLexeme offset sourceStop hstops
  obtain ⟨x, others, hlexemes, -⟩ := t.exists_lexemes_eq offset
  rw [hlexemes, List.cons_append] at hterm ⊢
  simp only [itemRound, Cursor.peek?, List.head?_cons, isSymbol_of_lexemes hlexemes "]" (by decide),
    isSymbol_of_lexemes hlexemes ":" (by decide), isSymbol_of_lexemes hlexemes "," (by decide),
    isCloser_of_lexemes hlexemes, Bool.false_eq_true, if_false, hterm, bind, Except.bind, pure, Except.pure]

theorem leadsTo_comma (opener : Lexeme) (state : List Node × Bool) (offset sourceStop : Nat) (rest : List Lexeme) :
    Round.LeadsTo (unbounded.itemRound opener) state ⟨mark ',' offset :: rest, offset, sourceStop⟩ state
      ⟨rest, offset + 1, sourceStop⟩ :=
  .again (by simp [itemRound, Cursor.peek?, isSymbol_mark, advance_mark (d := ',') (by decide)])
    (Nat.lt_succ_self _)

/-- A colon makes a literal a dictionary. -/
theorem leadsTo_colon (opener : Lexeme) (nodes : List Node) (isDictionary : Bool) (offset sourceStop : Nat)
    (rest : List Lexeme) :
    Round.LeadsTo (unbounded.itemRound opener) (nodes, isDictionary) ⟨mark ':' offset :: rest, offset, sourceStop⟩
      (nodes, true) ⟨rest, offset + 1, sourceStop⟩ :=
  .again (by simp [itemRound, Cursor.peek?, isSymbol_mark, advance_mark (d := ':') (by decide)])
    (Nat.lt_succ_self _)

theorem readsItems_array (opener : Lexeme) :
    ReadsItems (unbounded.itemRound opener) fun nodes => (nodes, false) where
  comma nodes offset sourceStop rest := leadsTo_comma opener _ offset sourceStop rest
  term ht nodes offset sourceStop _ hstops :=
    leadsTo_item ht opener nodes false offset sourceStop (hstops.mono (by decide))

/-- An entry of a dictionary is a term, a colon and a term. -/
theorem leadsTo_entry {key value : Term} (hkey : key.IsRead) (hvalue : value.IsRead) (opener : Lexeme)
    (nodes : List Node) (isDictionary : Bool) (offset sourceStop : Nat) (hstops : StopsAt separators rest) :
    Round.LeadsTo (unbounded.itemRound opener) (nodes, isDictionary)
      ⟨key.lexemes offset ++ mark ':' (offset + key.size) :: (value.lexemes (offset + key.size + 1) ++ rest),
        offset, sourceStop⟩
      (nodes ++ key.forest offset ++ value.forest (offset + key.size + 1), true)
      ⟨rest, offset + key.size + 1 + value.size, sourceStop⟩ :=
  ((leadsTo_item hkey opener nodes isDictionary offset sourceStop (stopsAt_mark (by decide) _ _)).trans
    (leadsTo_colon opener _ isDictionary _ sourceStop _)).trans
    (leadsTo_item hvalue opener _ true _ sourceStop hstops)

/-- The entries of a dictionary are passed over, or the colon that stands for none. -/
theorem leadsTo_entries (opener : Lexeme) {entries : List (Term × Term)}
    (hentries : ∀ entry ∈ entries, entry.1.IsRead ∧ entry.2.IsRead) (nodes : List Node) (isDictionary : Bool)
    (offset sourceStop : Nat) (hstops : StopsAt [']'] rest) :
    Round.LeadsTo (unbounded.itemRound opener) (nodes, isDictionary)
      ⟨lexemesEntries entries offset ++ rest, offset, sourceStop⟩ (nodes ++ forestEntries entries offset, true)
      ⟨rest, offset + byteLength (charsEntries entries), sourceStop⟩ := by
  induction entries generalizing nodes isDictionary offset with
  | nil =>
      rw [forestEntries, List.append_nil]
      exact leadsTo_colon opener nodes isDictionary offset sourceStop rest
  | cons entry others ih =>
      obtain ⟨key, value⟩ := entry
      obtain ⟨hkey, hvalue⟩ := hentries _ List.mem_cons_self
      rw [lexemesEntries, forestEntries, charsEntries, byteLength_append, byteLength_mark (by decide),
        byteLength_append, ← List.append_assoc nodes, ← List.append_assoc (nodes ++ _),
        List.append_assoc (key.lexemes offset), List.cons_append, List.append_assoc (value.lexemes _)]
      cases others with
      | nil =>
          have hplace : offset + (byteLength key.chars + (byteLength value.chars + 0 + 1)) =
              offset + key.size + 1 + value.size := by
            rw [size, size]
            omega
          rw [forestEntries, List.append_nil]
          simp only [List.isEmpty_nil, if_true, List.nil_append, byteLength_nil, hplace]
          exact leadsTo_entry hkey hvalue opener nodes isDictionary offset sourceStop (hstops.mono (by decide))
      | cons other others =>
          have hrest := ih (fun entry hentry => hentries entry (List.mem_cons_of_mem _ hentry))
            (nodes ++ key.forest offset ++ value.forest (offset + key.size + 1)) true
            (offset + key.size + 1 + value.size + 1)
          have hplace : offset + (byteLength key.chars +
              (byteLength value.chars + (byteLength (charsEntries (other :: others)) + 1) + 1)) =
              offset + key.size + 1 + value.size + 1 + byteLength (charsEntries (other :: others)) := by
            rw [size, size]
            omega
          simp only [List.isEmpty_cons, Bool.false_eq_true, if_false, byteLength_mark (d := ',') (by decide), hplace,
            List.cons_append]
          exact ((leadsTo_entry hkey hvalue opener nodes isDictionary offset sourceStop
            (stopsAt_mark (by decide) _ _)).trans (leadsTo_comma opener _ _ sourceStop _)).trans hrest

/-! ### Terms -/

theorem primary_word (name : Word) (offset sourceStop : Nat) (rest : List Lexeme) :
    g.primary ⟨name.lexeme offset :: rest, offset, sourceStop⟩ =
      .ok (some [], ⟨rest, offset + name.size, sourceStop⟩) := by
  rw [← advance_word]
  rfl

/-- A literal is read from its opening bracket, when its rounds lead to the closing one. -/
theorem primary_bracket {items : List Lexeme} {nodes : List Node} {isDictionary : Bool} {length : Nat}
    (hitems : Round.LeadsTo (unbounded.itemRound (mark '[' offset)) ([], false)
      ⟨items ++ mark ']' (offset + 1 + length) :: rest, offset + 1, sourceStop⟩ (nodes, isDictionary)
      ⟨mark ']' (offset + 1 + length) :: rest, offset + 1 + length, sourceStop⟩) :
    unbounded.primary ⟨mark '[' offset :: (items ++ mark ']' (offset + 1 + length) :: rest), offset, sourceStop⟩ =
      .ok (some [{ kind := if isDictionary then .dictionary else .array, span := ⟨offset, length + 2⟩
                   body := some ⟨offset + 1, length⟩, children := nodes }],
        ⟨rest, offset + (length + 2), sourceStop⟩) := by
  have hplace : offset + 1 + length + 1 = offset + (length + 2) := by omega
  have hclose : unbounded.itemRound (mark '[' offset) (nodes, isDictionary)
      ⟨mark ']' (offset + 1 + length) :: rest, offset + 1 + length, sourceStop⟩ =
        .ok (.done (nodes, isDictionary, mark ']' (offset + 1 + length)),
          ⟨rest, offset + (length + 2), sourceStop⟩) := by
    simp [itemRound, Cursor.peek?, isSymbol_mark, advance_mark (d := ']') (by decide), hplace]
  have hbody : Span.ofBounds (mark '[' offset).stop (mark ']' (offset + 1 + length)).start =
      ⟨offset + 1, length⟩ := by
    rw [stop_mark (by decide)]
    exact Span.ofBounds_add _ _
  have hspan : Span.ofBounds (mark '[' offset).start (mark ']' (offset + 1 + length)).stop =
      ⟨offset, length + 2⟩ := by
    rw [stop_mark (by decide), hplace]
    exact Span.ofBounds_add _ _
  have hkind : (mark '[' offset).kind = .punctuation := rfl
  have htext : (mark '[' offset).text = "[" := rfl
  simp [primary, Cursor.peek?, hkind, htext, advance_mark (d := '[') (by decide), collection, hitems.done hclose,
    hbody, hspan]

/-- The node of a call, when the callee is the name with which the operand begins. -/
theorem callNode_word (name : Word) (offset sourceStop length : Nat) (ahead : List Lexeme) (children : List Node) :
    callNode ⟨name.lexeme offset :: ahead, offset, sourceStop⟩ ⟨ahead, offset + name.size, sourceStop⟩
        (offset + length) children =
      { kind := .call, span := ⟨offset, length⟩
        name := name.text, nameSpan := some ⟨offset, name.size⟩, children } := by
  have hcallee : Cursor.lexemesTo ⟨name.lexeme offset :: ahead, offset, sourceStop⟩
      ⟨ahead, offset + name.size, sourceStop⟩ = [name.lexeme offset] := by
    simp [Cursor.lexemesTo]
  have hhere : Cursor.here ⟨name.lexeme offset :: ahead, offset, sourceStop⟩ = offset := rfl
  rw [callNode, hcallee, hhere, spelling_word, Span.ofBounds_add, Span.ofBounds_add]

/-- Behind a name, arguments make the operand a call. -/
theorem suffixRound_call {items : List Term} (hitems : ∀ t ∈ items, t.IsRead) (callee : Word)
    (offset sourceStop : Nat) (rest : List Lexeme) {ahead : List Lexeme}
    (hahead : ahead = mark '(' (offset + callee.size) :: (lexemesAll items (offset + callee.size + 1) ++
      mark ')' (offset + callee.size + 1 + byteLength (charsAll items)) :: rest)) :
    unbounded.suffixRound true ⟨callee.lexeme offset :: ahead, offset, sourceStop⟩
        ⟨[], ⟨ahead, offset + callee.size, sourceStop⟩⟩ ⟨ahead, offset + callee.size, sourceStop⟩ =
      .ok (.again ⟨(call callee items).forest offset, ⟨ahead, offset + callee.size, sourceStop⟩⟩,
        ⟨rest, offset + (call callee items).size, sourceStop⟩) := by
  have hpeek : Cursor.peek? ⟨ahead, offset + callee.size, sourceStop⟩ =
      some (mark '(' (offset + callee.size)) := by
    rw [hahead]
    rfl
  have harguments := arguments_of_isRead hitems (mark '(' (offset + callee.size)) (offset + callee.size + 1)
    sourceStop rest
  rw [← advance_mark (d := '(') (by decide), ← hahead] at harguments
  have hplace : offset + callee.size + 1 + byteLength (charsAll items) + 1 = offset + (call callee items).size := by
    rw [size_call]
    omega
  have hbody : Span.ofBounds (mark '(' (offset + callee.size)).stop
      (mark ')' (offset + callee.size + 1 + byteLength (charsAll items))).start =
        ⟨offset + callee.size + 1, byteLength (charsAll items)⟩ := by
    rw [stop_mark (by decide)]
    exact Span.ofBounds_add _ _
  have hkind : (mark '(' (offset + callee.size)).kind = .punctuation := rfl
  have htext : (mark '(' (offset + callee.size)).text = "(" := rfl
  have hline : (mark '(' (offset + callee.size)).isOnNewLine = false := rfl
  simp [suffixRound, hpeek, hkind, htext, hline, harguments, stop_mark (d := ')') (by decide), hplace, hbody,
    callNode_word, forest]

/-- Every term is read as an expression from its lexemes. -/
theorem isRead (t : Term) : t.IsRead := by
  induction t using Term.induction with
  | word name =>
      intro offset sourceStop rest hstops
      refine expression_of_operand (operandPrefixLength_lexemes (.word name) offset rest) ?_ hstops
      exact operand_of_primary (primary_word name offset sourceStop rest) (.refl _ _ _) hstops
  | array items ih =>
      intro offset sourceStop rest hstops
      refine expression_of_operand (operandPrefixLength_lexemes (.array items) offset rest) ?_ hstops
      have hprimary := primary_bracket ((readsItems_array (mark '[' offset)).all ih [] (offset + 1) sourceStop
        (stopsAt_mark (d := ']') (by decide) (offset + 1 + byteLength (charsAll items)) rest))
      rw [← size_array] at hprimary
      rw [lexemes, forest, List.cons_append, List.append_assoc, List.singleton_append]
      exact operand_of_primary hprimary (.refl _ _ _) hstops
  | dictionary entries ih =>
      intro offset sourceStop rest hstops
      refine expression_of_operand (operandPrefixLength_lexemes (.dictionary entries) offset rest) ?_ hstops
      have hprimary := primary_bracket (leadsTo_entries (mark '[' offset) ih [] false (offset + 1) sourceStop
        (stopsAt_mark (d := ']') (by decide) (offset + 1 + byteLength (charsEntries entries)) rest))
      rw [← size_dictionary] at hprimary
      rw [lexemes, forest, List.cons_append, List.append_assoc, List.singleton_append]
      exact operand_of_primary hprimary (.refl _ _ _) hstops
  | call callee arguments ih =>
      intro offset sourceStop rest hstops
      refine expression_of_operand (operandPrefixLength_lexemes (.call callee arguments) offset rest) ?_ hstops
      rw [lexemes, List.cons_append, List.cons_append, List.append_assoc, List.singleton_append]
      refine operand_of_primary (primary_word callee offset sourceStop _)
        (.again (suffixRound_call ih callee offset sourceStop rest rfl) ?_) hstops
      show rest.length < _
      rw [List.length_cons, List.length_append, List.length_cons]
      omega

/-! ### Whole texts -/

/-- There is no label before a term. -/
theorem skipStatementLabel_lexemes (t : Term) (offset sourceStop : Nat) :
    skipStatementLabel ⟨t.lexemes offset, offset, sourceStop⟩ = ⟨t.lexemes offset, offset, sourceStop⟩ := by
  obtain ⟨x, others, hlexemes, -⟩ := t.exists_lexemes_eq offset
  have hlabel := noLabel_of_lexemes hlexemes (stopsAt_nil _)
  rw [List.append_nil, Lexeme.isWord, Bool.and_or_distrib_right, Bool.or_eq_false_iff] at hlabel
  rw [hlexemes, skipStatementLabel]
  simp only [Cursor.next, Cursor.peek?, Cursor.peekAt?, List.head?_cons, Option.any_some, List.getElem?_cons_succ,
    hlabel.1, Bool.false_and, Bool.false_eq_true, if_false]

/-- There is no modifier or attribute before a term. -/
theorem modifiers_lexemes (t : Term) (offset sourceStop : Nat) :
    modifiers ⟨t.lexemes offset, offset, sourceStop⟩ = .ok ([], ⟨t.lexemes offset, offset, sourceStop⟩) := by
  obtain ⟨x, others, hlexemes, -⟩ := t.exists_lexemes_eq offset
  obtain ⟨hkind, hmodifier⟩ := kind_of_lexemes hlexemes
  have hattribute : x.isAttribute = false := by
    rw [Lexeme.isAttribute]
    obtain hkind | hkind := hkind
    all_goals
      rw [hkind]
      rfl
  have hat : atModifier ⟨x :: others, offset, sourceStop⟩ = false := by
    rw [atModifier, Cursor.peek?, List.head?_cons]
    cases Cursor.peekAt? ⟨x :: others, offset, sourceStop⟩ 1 with
    | none => rfl
    | some follower => exact Bool.and_eq_false_imp.2 fun h => Bool.noConfusion (h.symm.trans hmodifier)
  have hnone : modifierKind? ⟨x :: others, offset, sourceStop⟩ = none := by
    simp only [modifierKind?, Cursor.peek?, List.head?_cons, hattribute, hat, Bool.false_eq_true, if_false]
  rw [hlexemes]
  refine (Round.LeadsTo.refl _ _ _).done ?_
  rw [modifierRound, hnone]

/-- A term is a statement by itself. -/
theorem statement_lexemes (t : Term) (scope : Scope) (offset sourceStop : Nat) :
    unbounded.statement scope ⟨t.lexemes offset, offset, sourceStop⟩ =
      .ok (t.forest offset, ⟨[], offset + t.size, sourceStop⟩) := by
  have hexpression := t.isRead offset sourceStop [] (stopsAt_nil _)
  have hlabel := t.skipStatementLabel_lexemes offset sourceStop
  have hmodifiers := t.modifiers_lexemes offset sourceStop
  obtain ⟨x, others, hlexemes, -⟩ := t.exists_lexemes_eq offset
  rw [List.append_nil] at hexpression
  rw [hlexemes] at hexpression hlabel hmodifiers ⊢
  simp only [statement, hlabel, hmodifiers, bind, Except.bind, Cursor.peek?, List.head?_cons]
  obtain hkind | hkind := (kind_of_lexemes hlexemes).1
  all_goals simp only [hkind, expressionStatement, hexpression, bind, Except.bind, pure, Except.pure]

/-- The lexemes of a term are read as a file that consists of the term. -/
theorem file_lexemes (t : Term) (sourceStop : Nat) : file (t.lexemes 0) sourceStop = .ok (t.forest 0) := by
  have hstatement := t.statement_lexemes .topLevel 0 sourceStop
  have hlonger := t.length_lt_of_lexemes 0 []
  rw [List.append_nil] at hlonger
  have hround : unbounded.statementRound .topLevel false [] ⟨t.lexemes 0, 0, sourceStop⟩ =
      .ok (.again (t.forest 0), ⟨[], 0 + t.size, sourceStop⟩) := by
    have hstalled : Cursor.hasStalled ⟨t.lexemes 0, 0, sourceStop⟩ ⟨[], 0 + t.size, sourceStop⟩ = false :=
      beq_false_of_ne (Nat.ne_of_gt hlonger)
    obtain ⟨x, others, hlexemes, -⟩ := t.exists_lexemes_eq 0
    rw [hlexemes] at hstatement hstalled ⊢
    simp only [statementRound, Cursor.peek?, List.head?_cons, isSymbol_of_lexemes hlexemes "\x7d" (by decide),
      isSymbol_of_lexemes hlexemes ";" (by decide), isCloser_of_lexemes hlexemes, Bool.false_and, Bool.or_self,
      Bool.false_eq_true, if_false, hstatement, hstalled, bind, Except.bind, pure, Except.pure, List.nil_append]
  have hdone : unbounded.statementRound .topLevel false (t.forest 0) ⟨[], 0 + t.size, sourceStop⟩ =
      .ok (.done (t.forest 0), ⟨[], 0 + t.size, sourceStop⟩) := rfl
  have hstatements : unbounded.statements .topLevel false ⟨t.lexemes 0, 0, sourceStop⟩ =
      .ok (t.forest 0, ⟨[], 0 + t.size, sourceStop⟩) := by
    rw [← statementsBody_unbounded]
    exact (Round.LeadsTo.again hround hlonger).done hdone
  rw [← fileWith_unbounded, fileWith, hstatements]
  rfl

end Term

/-- Parsing undoes printing: the text of every term has a snapshot, and its forest is the one of the term. -/
theorem Snapshot.forest_ofSource_print (t : Term) : (ofSource t.print).map forest = .ok (t.forest 0) := by
  have hfile := t.file_lexemes t.print.utf8ByteSize
  rw [← Lexeme.significant_of_isTight (t.cuts_chars 0).isTight] at hfile
  rw [ofSource_eq_ok_iff.2 ⟨_, _, t.ofSource_print, hfile, rfl⟩]
  rfl

example : ((Snapshot.ofSource "f([],[:])").map fun snapshot =>
    (Node.listingAll snapshot.forest).map fun node => (node.kind, node.span, node.body)).toOption =
      some [(.call, ⟨0, 9⟩, some ⟨2, 6⟩), (.array, ⟨2, 2⟩, some ⟨3, 0⟩), (.dictionary, ⟨5, 3⟩, some ⟨6, 1⟩)] := by
  decide +kernel

end SourceLint
