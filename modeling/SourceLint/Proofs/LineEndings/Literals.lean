import SourceLint.Proofs.Bytes.Literals
import SourceLint.Proofs.LineEndings.Text

/-!
# String literals with carriage returns

A string literal is measured in a text with carriage returns as it is without them, and takes the carriage returns
of its newlines along. There is one exception. An escape takes one character along. When this is a newline, the
escape takes the carriage return before it instead, and a literal on one line does not go on at the newline.
-/

namespace SourceLint

/-! ### Beginnings -/

/-- A text begins with a pattern without newlines and carriage returns, or does not, as it does with carriage
returns. -/
theorem startsWith_withReturns {pattern : List Char} (hnewline : '\n' ∉ pattern) (hreturn : '\r' ∉ pattern)
    (cs : List Char) : Lexeme.startsWith pattern (withReturns cs) = Lexeme.startsWith pattern cs := by
  induction pattern generalizing cs with
  | nil => rfl
  | cons d pattern ih =>
      rw [List.mem_cons, not_or] at hnewline hreturn
      cases cs with
      | nil => rfl
      | cons c cs =>
          by_cases hc : c = '\n'
          · have hd : (d == '\n') = false := beq_false_of_ne (Ne.symm hnewline.1)
            have hd' : (d == '\r') = false := beq_false_of_ne (Ne.symm hreturn.1)
            simp only [Lexeme.startsWith, List.isPrefixOf, hc, withReturns_newline, hd, hd', Bool.false_and]
          · have hrest := ih hnewline.2 hreturn.2 cs
            simp only [Lexeme.startsWith, List.isPrefixOf, withReturns_cons hc] at hrest ⊢
            rw [hrest]

/-- The characters of a text are taken along with their carriage returns. -/
theorem length_withReturns_take_append (front cs : List Char) (n : Nat) :
    (withReturns ((front ++ cs).take (n + front.length))).length =
      (withReturns (cs.take n)).length + (withReturns front).length := by
  rw [List.take_append, List.take_of_length_le (Nat.le_add_left _ _), Nat.add_sub_cancel, withReturns_append,
    List.length_append, Nat.add_comm]

theorem drop_withReturns (n : Nat) (cs : List Char) :
    (withReturns cs).drop (withReturns (cs.take n)).length = withReturns (cs.drop n) := by
  conv_lhs =>
    rw [← List.take_append_drop n cs, withReturns_append]
  rw [List.take_append_drop, List.drop_left]

/-! ### Escaped newlines -/

/-- Some backslash, perhaps with hash signs, stands right before a newline. -/
def EscapesNewline (cs : List Char) : Prop :=
  ∃ front hashes back, cs = front ++ '\\' :: (List.replicate hashes '#' ++ '\n' :: back)

theorem EscapesNewline.append {cs : List Char} (h : EscapesNewline cs) (front back : List Char) :
    EscapesNewline (front ++ cs ++ back) := by
  obtain ⟨before, hashes, behind, rfl⟩ := h
  exact ⟨front ++ before, hashes, behind ++ back, by simp⟩

namespace Lexeme

/-- The second measurement finds the text of the first one with its carriage returns. Or else the first one takes an
escaped newline along and the second one finds nothing. -/
def InReturns (cs : List Char) (plain inReturns : Except SyntaxError Nat) : Prop :=
  inReturns.toOption = (plain.toOption.map fun n => (withReturns (cs.take n)).length) ∨
    inReturns.toOption = none ∧ ∃ n, plain = .ok n ∧ EscapesNewline (cs.take n)

/-- A measurement without a result is a failure. -/
theorem exists_error_of_toOption {α : Type} {r : Except SyntaxError α} (h : r.toOption = none) :
    ∃ e, r = .error e := by
  cases r with
  | error e => exact ⟨e, rfl⟩
  | ok a => cases h

namespace InReturns

variable {cs : List Char} {plain inReturns : Except SyntaxError Nat}

theorem error (cs : List Char) (e e' : SyntaxError) : InReturns cs (.error e) (.error e') := .inl rfl

theorem ok (front cs : List Char) :
    InReturns (front ++ cs) (.ok front.length) (.ok (withReturns front).length) := by
  left
  show some _ = some (withReturns ((front ++ cs).take front.length)).length
  rw [List.take_left]

/-- Both measurements go on behind a common front. -/
theorem append (front : List Char) (h : InReturns cs plain inReturns) :
    InReturns (front ++ cs) (plain.map (· + front.length))
      (inReturns.map (· + (withReturns front).length)) := by
  rcases h with h | ⟨hnone, n, rfl, hescape⟩
  · left
    rw [toOption_map, toOption_map, h, Option.map_map, Option.map_map]
    congr 1
    funext n
    exact (length_withReturns_take_append front cs n).symm
  · right
    refine ⟨by rw [toOption_map, hnone]; rfl, n + front.length, rfl, ?_⟩
    rw [List.take_append, List.take_of_length_le (Nat.le_add_left _ _), Nat.add_sub_cancel]
    simpa using hescape.append front []

/-- Behind a common front and a first piece, both measurements go on. -/
theorem behind (front : List Char) {first first' : Except SyntaxError Nat}
    {next next' : Nat → Except SyntaxError Nat} {total total' : Nat → Nat}
    (htotal : ∀ n, total n = n + front.length) (htotal' : ∀ n, total' n = n + (withReturns front).length)
    (hfirst : InReturns cs first first') (hle : ∀ n, first = .ok n → n ≤ cs.length)
    (hnext : ∀ n, InReturns (cs.drop n) (next n) (next' (withReturns (cs.take n)).length)) :
    InReturns (front ++ cs) (measureBehind first next total) (measureBehind first' next' total') := by
  cases first with
  | error e =>
      rcases hfirst with hfirst | ⟨-, n, hn, -⟩
      · obtain ⟨e', rfl⟩ := exists_error_of_toOption hfirst
        exact .error _ _ _
      · cases hn
  | ok n =>
      have hlength : (front ++ cs.take n).length = total n := by
        rw [List.length_append, List.length_take_of_le (hle n rfl), htotal, Nat.add_comm]
      have hparts : front ++ cs = front ++ cs.take n ++ cs.drop n := by
        rw [List.append_assoc, List.take_append_drop]
      rcases hfirst with hfirst | ⟨hnone, m, hm, hescape⟩
      · cases first' with
        | error e' => cases hfirst
        | ok n' =>
            obtain rfl : n' = (withReturns (cs.take n)).length := Option.some.inj hfirst
            have happend := (hnext n).append (front ++ cs.take n)
            rw [← hparts, hlength, withReturns_append, List.length_append, Nat.add_comm (withReturns front).length,
              ← htotal'] at happend
            exact happend
      · obtain rfl := Except.ok.inj hm
        obtain ⟨e', rfl⟩ := exists_error_of_toOption hnone
        cases hlater : next n with
        | error e =>
            have hfails : measureBehind (.ok n) next total = .error e := by
              simp only [measureBehind, hlater, Except.map]
            rw [hfails]
            exact .error _ _ _
        | ok k =>
            have hfound : measureBehind (.ok n) next total = .ok (k + total n) := by
              simp only [measureBehind, hlater, Except.map]
            refine .inr ⟨rfl, k + total n, hfound, ?_⟩
            rw [hparts, ← hlength, List.take_append, List.take_of_length_le (Nat.le_add_left _ _),
              List.append_assoc, ← List.append_assoc]
            exact hescape.append front _

end InReturns

/-! ### Literals -/

/-- The tail of a literal and that of an interpolation are found in a text with carriage returns as they are
without them. -/
def TailsInReturns (cs : List Char) : Prop :=
  (∀ d start start' offset offset',
    InReturns cs (literalTail d start offset cs) (literalTail d start' offset' (withReturns cs))) ∧
  ∀ start start' offset offset' depth, InReturns cs (interpolationTail start offset depth cs)
    (interpolationTail start' offset' depth (withReturns cs))

variable {d : Delimiter} {c : Char} {cs : List Char} {start start' offset offset' : Nat}

theorem hashSigns_plain (d : Delimiter) : '\n' ∉ d.hashSigns ∧ '\r' ∉ d.hashSigns := by
  constructor
  · exact fun h => absurd (List.eq_of_mem_replicate h) (by decide)
  · exact fun h => absurd (List.eq_of_mem_replicate h) (by decide)

theorem quotes_plain (d : Delimiter) : '\n' ∉ d.quotes ∧ '\r' ∉ d.quotes := by
  constructor
  · exact fun h => absurd (List.eq_of_mem_replicate h) (by decide)
  · exact fun h => absurd (List.eq_of_mem_replicate h) (by decide)

theorem closing_plain (d : Delimiter) : '\n' ∉ d.closing ∧ '\r' ∉ d.closing := by
  have hsigns := hashSigns_plain d
  rw [Delimiter.closing, List.mem_append, List.mem_append, not_or, not_or]
  refine ⟨⟨fun h => ?_, hsigns.1⟩, fun h => ?_, hsigns.2⟩
  · exact absurd (List.eq_of_mem_replicate h) (by decide)
  · exact absurd (List.eq_of_mem_replicate h) (by decide)

/-- No literal ends with a character that is no quote. -/
theorem not_startsWith_closing (hc : c ≠ '"') (cs : List Char) : ¬startsWith d.closing (c :: cs) = true := by
  intro h
  obtain ⟨rest, hrest⟩ := exists_of_startsWith h
  have hquote : d.closing = '"' :: (List.replicate d.furtherQuotes '"' ++ d.hashSigns) := by
    simp [Delimiter.closing, List.replicate_succ]
  rw [hquote, List.cons_append] at hrest
  exact hc (List.cons.inj hrest).1

theorem literalTail_return (d : Delimiter) (start offset : Nat) (cs : List Char) :
    literalTail d start offset ('\r' :: cs) =
      (literalTail d start (offset + ('\r' : Char).utf8Size) cs).map (· + 1) :=
  literalTail_char (by simp) (by simp) (not_startsWith_closing (by decide) cs)

theorem literalTail_newline (hd : d.isMultiline = true) (start offset : Nat) (cs : List Char) :
    literalTail d start offset ('\n' :: cs) =
      (literalTail d start (offset + ('\n' : Char).utf8Size) cs).map (· + 1) :=
  literalTail_char (by simp [hd]) (by simp) (not_startsWith_closing (by decide) cs)

theorem literalTail_newline_error (hd : d.isMultiline = false) (start offset : Nat) (cs : List Char) :
    literalTail d start offset ('\n' :: cs) = .error (.unterminatedString start) := by
  rw [literalTail, if_pos (by simp [hd])]

/-- A literal goes on behind a newline when it may have several lines. -/
theorem literalTail_newline_returns (ih : TailsInReturns cs) (d : Delimiter) (start start' offset offset' : Nat) :
    InReturns ('\n' :: cs) (literalTail d start offset ('\n' :: cs))
      (literalTail d start' offset' ('\r' :: '\n' :: withReturns cs)) := by
  rw [literalTail_return]
  cases hd : d.isMultiline with
  | false =>
      rw [literalTail_newline_error hd, literalTail_newline_error hd]
      exact .error _ _ _
  | true =>
      rw [literalTail_newline hd, literalTail_newline hd, exceptMap_map]
      exact (ih.1 d _ _ _ _).append ['\n']

/-- An escape takes a character along, or the carriage return before it when it is a newline. -/
theorem literalTail_escape_returns (ih : TailsInReturns cs) (hc : c ≠ '(') (d : Delimiter)
    (start start' offset offset' : Nat) :
    InReturns ('\\' :: (d.hashSigns ++ c :: cs)) (literalTail d start offset ('\\' :: (d.hashSigns ++ c :: cs)))
      (literalTail d start' offset' ('\\' :: (d.hashSigns ++ withReturns (c :: cs)))) := by
  have hfront : ('\\' :: (d.hashSigns ++ [c])).length = d.hashes + 2 := by simp [d.length_hashSigns]
  have hescaped := ih.1 d start start' (offset + 1 + d.hashes + c.utf8Size)
  rw [literalTail_escape hc]
  by_cases hnewline : c = '\n'
  · subst hnewline
    rw [withReturns_newline, literalTail_escape (by decide)]
    cases hd : d.isMultiline with
    | false =>
        rw [literalTail_newline_error hd]
        cases hlater : literalTail d start (offset + 1 + d.hashes + ('\n' : Char).utf8Size) cs with
        | error e => exact .error _ _ _
        | ok n =>
            refine .inr ⟨rfl, n + (d.hashes + 2), rfl, ?_⟩
            have hparts : '\\' :: (d.hashSigns ++ '\n' :: cs) = '\\' :: (d.hashSigns ++ ['\n']) ++ cs := by simp
            have hescape : EscapesNewline ('\\' :: (d.hashSigns ++ ['\n'])) := ⟨[], d.hashes, [], rfl⟩
            rw [hparts, ← hfront, List.take_append, List.take_of_length_le (Nat.le_add_left _ _)]
            exact hescape.append [] _
    | true =>
        have hfront' : (withReturns ('\\' :: (d.hashSigns ++ ['\n']))).length = 1 + (d.hashes + 2) := by
          rw [withReturns_cons (by decide), withReturns_append, withReturns_eq_self (hashSigns_plain d).1]
          simp [d.length_hashSigns]
          omega
        have happend := (hescaped (offset' + 1 + d.hashes + ('\r' : Char).utf8Size +
          ('\n' : Char).utf8Size)).append ('\\' :: (d.hashSigns ++ ['\n']))
        rw [hfront, hfront'] at happend
        rw [literalTail_newline hd, exceptMap_map]
        simpa [Function.comp_def, Nat.add_assoc] using happend
  · have hfront' : (withReturns ('\\' :: (d.hashSigns ++ [c]))).length = d.hashes + 2 := by
      rw [withReturns_cons (by decide), withReturns_append, withReturns_eq_self (hashSigns_plain d).1,
        withReturns_cons hnewline]
      simp [d.length_hashSigns]
    have happend := (hescaped (offset' + 1 + d.hashes + c.utf8Size)).append ('\\' :: (d.hashSigns ++ [c]))
    rw [hfront, hfront'] at happend
    rw [withReturns_cons hnewline, literalTail_escape hc]
    simpa using happend

theorem literalTail_returns (ih : ∀ ds, ds.length ≤ cs.length → TailsInReturns ds) (d : Delimiter)
    (start start' offset offset' : Nat) :
    InReturns (c :: cs) (literalTail d start offset (c :: cs))
      (literalTail d start' offset' (withReturns (c :: cs))) := by
  have hsigns := hashSigns_plain d
  have hclosingPlain := closing_plain d
  by_cases hnewline : c = '\n'
  · subst hnewline
    exact literalTail_newline_returns (ih cs (Nat.le_refl _)) d start start' offset offset'
  by_cases hescape : (c == '\\' && startsWith d.hashSigns cs) = true
  · have hhashes := hescape
    simp only [Bool.and_eq_true, beq_iff_eq] at hhashes
    obtain ⟨rfl, hhashes⟩ := hhashes
    obtain ⟨escaped, rfl⟩ := exists_of_startsWith hhashes
    rw [withReturns_cons hnewline, withReturns_append, withReturns_eq_self hsigns.1]
    cases escaped with
    | nil =>
        rw [withReturns_nil, literalTail_escape_nil, literalTail_escape_nil]
        exact .error _ _ _
    | cons e es =>
        by_cases he : e = '('
        · subst he
          have hrest : ∀ n, TailsInReturns (es.drop n) := fun n => ih _ (by simp; omega)
          have hplain : '\n' ∉ '\\' :: (d.hashSigns ++ ['(']) := by simp [hsigns.1]
          have hfront : ('\\' :: (d.hashSigns ++ ['('])).length = d.hashes + 2 := by simp [d.length_hashSigns]
          have hsplit : '\\' :: (d.hashSigns ++ '(' :: es) = '\\' :: (d.hashSigns ++ ['(']) ++ es := by simp
          rw [withReturns_cons (by decide), literalTail_interpolation, literalTail_interpolation, hsplit]
          refine InReturns.behind ('\\' :: (d.hashSigns ++ ['('])) (fun n => ?_) (fun n => ?_)
            ((ih es (by simp; omega)).2 _ _ _ _ _) (fun n => interpolationTail_le) fun n => ?_
          · rw [hfront, Nat.add_assoc]
          · rw [withReturns_eq_self hplain, hfront, Nat.add_assoc]
          · rw [drop_withReturns]
            exact (hrest n).1 _ _ _ _ _
        · exact literalTail_escape_returns (ih es (by simp; omega)) he d start start' offset offset'
  by_cases hclosing : startsWith d.closing (c :: cs) = true
  · obtain ⟨rest, hrest⟩ := exists_of_startsWith hclosing
    have hok := InReturns.ok d.closing rest
    rw [withReturns_eq_self hclosingPlain.1] at hok
    rw [hrest, withReturns_append, withReturns_eq_self hclosingPlain.1, literalTail_closing, literalTail_closing]
    exact hok
  have hescape' : ¬(c == '\\' && startsWith d.hashSigns (withReturns cs)) = true := by
    rwa [startsWith_withReturns hsigns.1 hsigns.2]
  have hclosing' : ¬startsWith d.closing (c :: withReturns cs) = true := by
    rwa [← withReturns_cons hnewline, startsWith_withReturns hclosingPlain.1 hclosingPlain.2]
  have hline : ¬(c == '\n' && !d.isMultiline) = true := by simp [hnewline]
  have happend := ((ih cs (Nat.le_refl _)).1 d start start' (offset + c.utf8Size) (offset' + c.utf8Size)).append [c]
  rw [withReturns_cons hnewline, withReturns_nil] at happend
  rw [withReturns_cons hnewline, literalTail_char hline hescape hclosing,
    literalTail_char hline hescape' hclosing']
  exact happend

/-- The delimiter at a quote is the same with carriage returns. -/
theorem atQuote_withReturns (hashes : Nat) (cs : List Char) :
    Delimiter.atQuote hashes (withReturns cs) = Delimiter.atQuote hashes cs := by
  rw [Delimiter.atQuote, Delimiter.atQuote, startsWith_withReturns (by decide) (by decide)]

theorem interpolationTail_returns (ih : ∀ ds, ds.length ≤ cs.length → TailsInReturns ds)
    (start start' offset offset' depth : Nat) :
    InReturns (c :: cs) (interpolationTail start offset depth (c :: cs))
      (interpolationTail start' offset' depth (withReturns (c :: cs))) := by
  have hrest := (ih cs (Nat.le_refl _)).2
  by_cases hnewline : c = '\n'
  · subst hnewline
    have herror : ∀ start offset cs,
        interpolationTail start offset depth ('\n' :: cs) = .error (.unterminatedString start) := by
      intro start offset cs
      rw [interpolationTail.eq_def]
      rfl
    rw [withReturns_newline, herror, interpolationTail_char (by decide), herror]
    exact .error _ _ _
  have hstep : ∀ start start' offset offset' depth, InReturns (c :: cs)
      ((interpolationTail start offset depth cs).map (· + 1))
      ((interpolationTail start' offset' depth (withReturns cs)).map (· + 1)) := by
    intro start start' offset offset' depth
    have happend := (hrest start start' offset offset' depth).append [c]
    rwa [withReturns_cons hnewline, withReturns_nil] at happend
  rw [withReturns_cons hnewline]
  by_cases hopen : c = '('
  · subst hopen
    rw [interpolationTail_open, interpolationTail_open]
    exact hstep _ _ _ _ _
  by_cases hclose : c = ')'
  · subst hclose
    cases depth with
    | zero =>
        rw [interpolationTail_end, interpolationTail_end]
        exact .ok [')'] cs
    | succ depth =>
        rw [interpolationTail_close, interpolationTail_close]
        exact hstep _ _ _ _ _
  by_cases hquote : c = '"'
  · subst hquote
    rw [interpolationTail_quote, interpolationTail_quote, atQuote_withReturns]
    obtain ⟨behind, hquotes⟩ := Delimiter.exists_of_atQuote 0 cs
    generalize Delimiter.atQuote 0 cs = d at *
    subst hquotes
    have hplain : '\n' ∉ '"' :: d.quotes := by simp [(quotes_plain d).1]
    rw [withReturns_append, withReturns_eq_self (quotes_plain d).1]
    simp only [← List.drop_drop, d.drop_furtherQuotes]
    have hafter : ∀ n, TailsInReturns (behind.drop n) := fun n => ih _ (by simp; omega)
    refine InReturns.behind ('"' :: d.quotes) (fun n => ?_) (fun n => ?_) ((ih behind (by simp)).1 _ _ _ _ _)
      (fun n => literalTail_le) fun n => ?_
    · rw [List.length_cons, d.length_quotes]
      omega
    · rw [withReturns_eq_self hplain, List.length_cons, d.length_quotes]
      omega
    · rw [drop_withReturns]
      exact (hafter n).2 _ _ _ _ _
  · have hplain : c ∉ ['(', ')', '"', '\n'] := by simp [hopen, hclose, hquote, hnewline]
    rw [interpolationTail_char hplain, interpolationTail_char hplain]
    exact hstep _ _ _ _ _

theorem tailsInReturns (cs : List Char) : TailsInReturns cs := by
  induction hlength : cs.length using Nat.strongRecOn generalizing cs with
  | ind length ih =>
      cases cs with
      | nil =>
          constructor
          · intro d start start' offset offset'
            rw [withReturns_nil, literalTail, literalTail]
            exact .error _ _ _
          · intro start start' offset offset' depth
            rw [withReturns_nil, interpolationTail, interpolationTail]
            exact .error _ _ _
      | cons c cs =>
          rw [List.length_cons] at hlength
          have hshort : ∀ ds : List Char, ds.length ≤ cs.length → TailsInReturns ds :=
            fun ds hds => ih ds.length (by omega) ds rfl
          exact ⟨literalTail_returns hshort, interpolationTail_returns hshort⟩

theorem literalAfterQuote_returns (hashes start start' : Nat) (cs : List Char) :
    InReturns cs (literalAfterQuote hashes start cs) (literalAfterQuote hashes start' (withReturns cs)) := by
  rw [literalAfterQuote, literalAfterQuote, atQuote_withReturns]
  obtain ⟨rest, hrest⟩ := Delimiter.exists_of_atQuote hashes cs
  generalize Delimiter.atQuote hashes cs = d at *
  subst hrest
  rw [withReturns_append, withReturns_eq_self (quotes_plain d).1, d.drop_furtherQuotes, d.drop_furtherQuotes]
  have happend := ((tailsInReturns rest).1 d start start' (start + hashes + 1 + d.furtherQuotes)
    (start' + hashes + 1 + d.furtherQuotes)).append d.quotes
  rw [withReturns_eq_self (quotes_plain d).1, d.length_quotes] at happend
  exact happend

end Lexeme

end SourceLint
