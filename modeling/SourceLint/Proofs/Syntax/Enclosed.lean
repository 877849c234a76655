import SourceLint.Proofs.Syntax.Visible

/-!
# Comments, literals and names in backticks

A comment, a string literal or a name in backticks ends where its closing characters are found. Nothing
behind them matters, with two exceptions: a line comment ends at a newline or at the end of the text,
and an empty string literal must not be followed by a third quote.

## Implementation notes

A string literal looks ahead for its hash signs and its closing quotes, but never further than the
closing that it finds in the end. So the induction carries that the closing is at the end of what is
measured, and each look ahead stays within it.
-/

namespace SourceLint.Lexeme

/-- The text begins with a body and a closing, and the tail of a literal is measured as these two,
whatever stands behind them. -/
def ClosedBy (closing : List Char) (tail : Nat → Nat → List Char → Except SyntaxError Nat)
    (cs : List Char) (n : Nat) : Prop :=
  ∃ body rest, cs = body ++ closing ++ rest ∧ (body ++ closing).length = n ∧
    ∀ start offset rest, tail start offset (body ++ closing ++ rest) = .ok n

/-- What is closed stays closed behind a front that is measured in the same way whatever stands behind the
closing. -/
theorem ClosedBy.behind {closing : List Char}
    {tail tail' : Nat → Nat → List Char → Except SyntaxError Nat} {cs : List Char} {n : Nat}
    (h : ClosedBy closing tail' cs n) (front : List Char) {whole : List Char} {size : Nat}
    (hwhole : whole = front ++ cs) (hsize : size = n + front.length)
    (hfront : ∀ body after, cs = body ++ closing ++ after → ∀ start offset rest, ∃ start' offset',
      tail start offset (front ++ (body ++ closing ++ rest)) =
        (tail' start' offset' (body ++ closing ++ rest)).map (· + front.length)) :
    ClosedBy closing tail whole size := by
  obtain ⟨body, rest, rfl, rfl, hagain⟩ := h
  subst hwhole hsize
  refine ⟨front ++ body, rest, by simp, ?_, fun start offset rest => ?_⟩
  · simp only [List.length_append]
    omega
  · obtain ⟨start', offset', hstep⟩ := hfront body _ rfl start offset rest
    rw [List.append_assoc, List.append_assoc, ← List.append_assoc body, hstep, hagain]
    rfl

/-- A pattern that fits into the front of a text is found there or not, whatever stands behind. -/
theorem startsWith_append {pattern front : List Char} (hle : pattern.length ≤ front.length)
    (rest : List Char) : startsWith pattern (front ++ rest) = startsWith pattern front := by
  induction pattern generalizing front with
  | nil => rfl
  | cons d pattern ih =>
      cases front with
      | nil => simp at hle
      | cons c front =>
          have hrest := ih (Nat.le_of_succ_le_succ hle)
          simp only [startsWith, List.cons_append, List.isPrefixOf] at hrest ⊢
          rw [hrest]

theorem exists_of_startsWith {pattern cs : List Char} (h : startsWith pattern cs = true) :
    ∃ rest, cs = pattern ++ rest := by
  obtain ⟨rest, hrest⟩ := List.isPrefixOf_iff_prefix.1 h
  exact ⟨rest, hrest.symm⟩

theorem startsWith_self_append (pattern rest : List Char) :
    startsWith pattern (pattern ++ rest) = true :=
  List.isPrefixOf_iff_prefix.2 (List.prefix_append _ _)

theorem Delimiter.length_hashSigns (d : Delimiter) : d.hashSigns.length = d.hashes :=
  List.length_replicate

theorem Delimiter.length_closing (d : Delimiter) :
    d.closing.length = d.furtherQuotes + 1 + d.hashes := by
  simp [closing, hashSigns]

/-- The quotes behind the first one. -/
def Delimiter.quotes (d : Delimiter) : List Char := List.replicate d.furtherQuotes '"'

@[simp] theorem Delimiter.length_quotes (d : Delimiter) : d.quotes.length = d.furtherQuotes :=
  List.length_replicate

theorem Delimiter.drop_furtherQuotes (d : Delimiter) (cs : List Char) :
    (d.quotes ++ cs).drop d.furtherQuotes = cs := by
  rw [← d.length_quotes, List.drop_left]

/-- The delimiter at a quote is followed by its own quotes. -/
theorem Delimiter.exists_of_atQuote (hashes : Nat) (cs : List Char) :
    ∃ rest, cs = (Delimiter.atQuote hashes cs).quotes ++ rest := by
  cases h : startsWith ['"', '"'] cs with
  | true =>
      obtain ⟨rest, hrest⟩ := exists_of_startsWith h
      exact ⟨rest, by simpa [atQuote, quotes, furtherQuotes, h] using hrest⟩
  | false => exact ⟨cs, by simp [atQuote, quotes, furtherQuotes, h]⟩

/-- Two characters are enough to find the delimiter at a quote. -/
theorem Delimiter.atQuote_append {front : List Char} (hle : 2 ≤ front.length) (hashes : Nat)
    (rest : List Char) : atQuote hashes (front ++ rest) = atQuote hashes front := by
  have hquotes : startsWith ['"', '"'] (front ++ rest) = startsWith ['"', '"'] front :=
    startsWith_append (by simpa using hle) rest
  rw [atQuote, hquotes]
  rfl

/-- The characters behind a hash-signed backslash. -/
theorem drop_hashSigns (d : Delimiter) (cs : List Char) : (d.hashSigns ++ cs).drop d.hashes = cs := by
  rw [← d.length_hashSigns, List.drop_left]

/-! ### String literals -/

section Steps

variable {d : Delimiter} {start offset : Nat} {c : Char} {cs : List Char}

theorem literalTail_char (hnewline : ¬(c == '\n' && !d.isMultiline) = true)
    (hescape : ¬(c == '\\' && startsWith d.hashSigns cs) = true)
    (hclosing : ¬startsWith d.closing (c :: cs) = true) :
    literalTail d start offset (c :: cs) =
      (literalTail d start (offset + c.utf8Size) cs).map (· + 1) := by
  rw [literalTail, if_neg hnewline, if_neg hescape, if_neg hclosing]

theorem literalTail_closing (d : Delimiter) (start offset : Nat) (rest : List Char) :
    literalTail d start offset (d.closing ++ rest) = .ok d.closing.length := by
  have hquote : d.closing ++ rest =
      '"' :: (List.replicate d.furtherQuotes '"' ++ d.hashSigns ++ rest) := by
    simp [Delimiter.closing, List.replicate_succ]
  have hclosing := startsWith_self_append d.closing rest
  rw [hquote] at hclosing ⊢
  rw [literalTail, if_neg (by simp), if_neg (by simp), if_pos hclosing]

/-- A backslash with its hash signs takes the next character along. -/
theorem literalTail_escape (hc : c ≠ '(') :
    literalTail d start offset ('\\' :: (d.hashSigns ++ c :: cs)) =
      (literalTail d start (offset + 1 + d.hashes + c.utf8Size) cs).map (· + (d.hashes + 2)) := by
  have hparen : ¬startsWith ['('] (c :: cs) = true := by
    simpa [startsWith, List.isPrefixOf] using fun h : '(' = c => hc h.symm
  rw [literalTail, if_neg (by simp), if_pos (by simp [startsWith_self_append])]
  simp only [drop_hashSigns, if_neg hparen, List.take_succ_cons, List.take_zero, List.drop_succ_cons,
    List.drop_zero, byteLength_cons, byteLength_nil, Nat.add_zero]

/-- A backslash with its hash signs and a parenthesis begins an interpolation. -/
theorem literalTail_interpolation :
    literalTail d start offset ('\\' :: (d.hashSigns ++ '(' :: cs)) =
      match interpolationTail start (offset + 1 + d.hashes + 1) 0 cs with
      | .error e => .error e
      | .ok n =>
        (literalTail d start (offset + 1 + d.hashes + 1 + byteLength (cs.take n)) (cs.drop n)).map
          (· + (n + d.hashes + 2)) := by
  have hparen : startsWith ['('] ('(' :: cs) = true := startsWith_self_append ['('] cs
  rw [literalTail, if_neg (by simp), if_pos (by simp [startsWith_self_append])]
  cases hinside : interpolationTail start (offset + 1 + d.hashes + 1) 0 cs with
  | error e => simp [drop_hashSigns, hparen, hinside]
  | ok n => simp [drop_hashSigns, hparen, hinside]

/-- A quote begins a literal inside an interpolation. -/
theorem interpolationTail_quote {depth : Nat} :
    interpolationTail start offset depth ('"' :: cs) =
      match literalTail (.atQuote 0 cs) offset
          (offset + 1 + (Delimiter.atQuote 0 cs).furtherQuotes)
          (cs.drop (Delimiter.atQuote 0 cs).furtherQuotes) with
      | .error e => .error e
      | .ok n =>
        (interpolationTail start
          (offset + 1 + byteLength (cs.take ((Delimiter.atQuote 0 cs).furtherQuotes + n))) depth
          (cs.drop ((Delimiter.atQuote 0 cs).furtherQuotes + n))).map
          (· + ((Delimiter.atQuote 0 cs).furtherQuotes + n + 1)) := by
  rw [interpolationTail.eq_def]
  rfl

theorem interpolationTail_open {depth : Nat} :
    interpolationTail start offset depth ('(' :: cs) =
      (interpolationTail start (offset + 1) (depth + 1) cs).map (· + 1) := by
  rw [interpolationTail.eq_def]
  rfl

theorem interpolationTail_close {depth : Nat} :
    interpolationTail start offset (depth + 1) (')' :: cs) =
      (interpolationTail start (offset + 1) depth cs).map (· + 1) := by
  rw [interpolationTail.eq_def]
  rfl

theorem interpolationTail_end : interpolationTail start offset 0 (')' :: cs) = .ok 1 := by
  rw [interpolationTail.eq_def]
  rfl

theorem interpolationTail_char {depth : Nat} (hc : c ∉ ['(', ')', '"', '\n']) :
    interpolationTail start offset depth (c :: cs) =
      (interpolationTail start (offset + c.utf8Size) depth cs).map (· + 1) := by
  simp only [List.mem_cons, List.not_mem_nil, or_false, not_or] at hc
  rw [interpolationTail.eq_def]
  simp [hc]

end Steps

/-- A literal that begins in front of the text is closed by its delimiter, and an interpolation by its
parenthesis. -/
def TailsClosed (cs : List Char) : Prop :=
  (∀ d start offset n, literalTail d start offset cs = .ok n →
    ClosedBy d.closing (literalTail d) cs n) ∧
  ∀ start offset depth n, interpolationTail start offset depth cs = .ok n →
    ClosedBy [')'] (fun start offset => interpolationTail start offset depth) cs n

variable {start offset n : Nat} {c : Char} {cs : List Char}

/-- Behind an escaped character, or an interpolation closed by its parenthesis, the literal goes on. -/
theorem literalTail_escape_closed {d : Delimiter} (ih : ∀ ds, ds.length ≤ cs.length → TailsClosed ds)
    (h : literalTail d start offset ('\\' :: (d.hashSigns ++ c :: cs)) = .ok n) :
    ClosedBy d.closing (literalTail d) ('\\' :: (d.hashSigns ++ c :: cs)) n := by
  have hlength := d.length_hashSigns
  by_cases hc : c = '('
  · subst hc
    rw [literalTail_interpolation] at h
    split at h
    · cases h
    · rename_i m hm
      obtain ⟨k, hk, rfl⟩ := exceptMap_eq_ok_iff.1 h
      obtain ⟨inner, behind, rfl, rfl, hinner⟩ := (ih cs (Nat.le_refl _)).2 _ _ _ _ hm
      simp only at hinner
      rw [List.drop_left] at hk
      refine ((ih behind (by simp; omega)).1 _ _ _ _ hk).behind
        ('\\' :: (d.hashSigns ++ '(' :: (inner ++ [')']))) (by simp) (by simp; omega)
        fun body _ _ start offset rest => ?_
      have hwhole : '\\' :: (d.hashSigns ++ '(' :: (inner ++ [')'])) ++ (body ++ d.closing ++ rest) =
          '\\' :: (d.hashSigns ++ '(' :: (inner ++ [')'] ++ (body ++ d.closing ++ rest))) := by
        simp
      have hsize : ('\\' :: (d.hashSigns ++ '(' :: (inner ++ [')']))).length =
          (inner ++ [')']).length + d.hashes + 2 := by
        simp
        omega
      rw [hwhole, hsize, literalTail_interpolation, hinner]
      simp only [List.drop_left]
      exact ⟨_, _, rfl⟩
  · rw [literalTail_escape hc] at h
    obtain ⟨k, hk, rfl⟩ := exceptMap_eq_ok_iff.1 h
    refine ((ih cs (Nat.le_refl _)).1 _ _ _ _ hk).behind ('\\' :: (d.hashSigns ++ [c])) (by simp)
      (by simp [hlength]) fun body _ _ start offset rest => ?_
    refine ⟨start, offset + 1 + d.hashes + c.utf8Size, ?_⟩
    simp only [List.cons_append, List.append_assoc, List.nil_append, literalTail_escape hc]
    simp [hlength]

theorem literalTail_closed {d : Delimiter} (ih : ∀ ds, ds.length ≤ cs.length → TailsClosed ds)
    (h : literalTail d start offset (c :: cs) = .ok n) :
    ClosedBy d.closing (literalTail d) (c :: cs) n := by
  by_cases hnewline : (c == '\n' && !d.isMultiline) = true
  · rw [literalTail, if_pos hnewline] at h
    cases h
  by_cases hescape : (c == '\\' && startsWith d.hashSigns cs) = true
  · have hhashes := hescape
    simp only [Bool.and_eq_true, beq_iff_eq] at hhashes
    obtain ⟨rfl, hhashes⟩ := hhashes
    obtain ⟨escaped, rfl⟩ := exists_of_startsWith hhashes
    cases escaped with
    | nil =>
        rw [literalTail, if_neg hnewline, if_pos hescape] at h
        simp only [drop_hashSigns] at h
        rw [if_neg (by simp [startsWith])] at h
        obtain ⟨k, hk, -⟩ := exceptMap_eq_ok_iff.1 h
        rw [List.drop_nil, literalTail] at hk
        cases hk
    | cons e es =>
        refine literalTail_escape_closed (fun ds hds => ih ds ?_) h
        rw [List.length_append, List.length_cons]
        omega
  by_cases hclosing : startsWith d.closing (c :: cs) = true
  · obtain ⟨rest, hrest⟩ := exists_of_startsWith hclosing
    rw [hrest, literalTail_closing] at h
    obtain rfl := Except.ok.inj h
    exact ⟨[], rest, hrest, rfl, fun start offset rest => literalTail_closing d start offset rest⟩
  rw [literalTail_char hnewline hescape hclosing] at h
  obtain ⟨k, hk, rfl⟩ := exceptMap_eq_ok_iff.1 h
  refine ((ih cs (Nat.le_refl _)).1 _ _ _ _ hk).behind [c] rfl rfl
    fun body after hcs start offset rest => ?_
  have hlength := d.length_closing
  have hlengthHash := d.length_hashSigns
  have hashes : ∀ rest, startsWith d.hashSigns (body ++ d.closing ++ rest) =
      startsWith d.hashSigns (body ++ d.closing) :=
    startsWith_append (by rw [List.length_append]; omega)
  have hend : ∀ rest, startsWith d.closing (c :: (body ++ d.closing ++ rest)) =
      startsWith d.closing (c :: (body ++ d.closing)) := by
    intro rest
    rw [← List.cons_append]
    exact startsWith_append (by rw [List.length_cons, List.length_append]; omega) rest
  rw [hcs, hashes] at hescape
  rw [hcs, hend] at hclosing
  rw [← hashes rest] at hescape
  rw [← hend rest] at hclosing
  exact ⟨_, _, literalTail_char hnewline hescape hclosing⟩

/-- A literal in an interpolation is closed by its delimiter, and the interpolation goes on behind it. -/
theorem interpolationTail_quote_closed {depth : Nat}
    (ih : ∀ ds, ds.length ≤ cs.length → TailsClosed ds)
    (h : interpolationTail start offset depth ('"' :: cs) = .ok n) :
    ClosedBy [')'] (fun start offset => interpolationTail start offset depth) ('"' :: cs) n := by
  rw [interpolationTail_quote] at h
  split at h
  · cases h
  · rename_i m hm
    obtain ⟨k, hk, rfl⟩ := exceptMap_eq_ok_iff.1 h
    obtain ⟨behind, hquotes⟩ := Delimiter.exists_of_atQuote 0 cs
    generalize hd : Delimiter.atQuote 0 cs = d at *
    subst hquotes
    rw [d.drop_furtherQuotes] at hm
    obtain ⟨body, after, rfl, rfl, hliteral⟩ := (ih behind (by simp)).1 _ _ _ _ hm
    rw [← List.drop_drop, d.drop_furtherQuotes, List.drop_left] at hk
    have hlength := d.length_closing
    refine ((ih after (by simp; omega)).2 _ _ _ _ hk).behind ('"' :: (d.quotes ++ (body ++ d.closing)))
      (by simp) (by simp) fun inner later hafter start offset rest => ?_
    have hwhole : '"' :: (d.quotes ++ (body ++ d.closing)) ++ (inner ++ [')'] ++ rest) =
        '"' :: (d.quotes ++ (body ++ d.closing ++ (inner ++ [')'] ++ rest))) := by
      simp
    have hagain : Delimiter.atQuote 0 (d.quotes ++ (body ++ d.closing ++ (inner ++ [')'] ++ rest))) = d := by
      -- the quotes, the closing and the parenthesis are enough to tell the delimiter
      have hfront : ∀ rest, d.quotes ++ (body ++ d.closing ++ (inner ++ [')'] ++ rest)) =
          d.quotes ++ (body ++ d.closing ++ (inner ++ [')'])) ++ rest := by
        simp
      rw [hafter, hfront, Delimiter.atQuote_append (by simp; omega)] at hd
      rw [hfront, Delimiter.atQuote_append (by simp; omega)]
      exact hd
    have hsize : ('"' :: (d.quotes ++ (body ++ d.closing))).length =
        d.furtherQuotes + (body ++ d.closing).length + 1 := by
      simp
    rw [hwhole, hsize]
    simp only [interpolationTail_quote, hagain, d.drop_furtherQuotes, hliteral, ← List.drop_drop,
      List.drop_left]
    exact ⟨start, _, rfl⟩

theorem interpolationTail_closed {depth : Nat} (ih : ∀ ds, ds.length ≤ cs.length → TailsClosed ds)
    (h : interpolationTail start offset depth (c :: cs) = .ok n) :
    ClosedBy [')'] (fun start offset => interpolationTail start offset depth) (c :: cs) n := by
  have hrest := ih cs (Nat.le_refl _)
  by_cases hopen : c = '('
  · subst hopen
    rw [interpolationTail_open] at h
    obtain ⟨k, hk, rfl⟩ := exceptMap_eq_ok_iff.1 h
    exact (hrest.2 _ _ _ _ hk).behind ['('] rfl rfl fun _ _ _ _ _ _ =>
      ⟨_, _, interpolationTail_open⟩
  by_cases hclose : c = ')'
  · subst hclose
    cases depth with
    | zero =>
        rw [interpolationTail_end] at h
        obtain rfl := Except.ok.inj h
        exact ⟨[], cs, rfl, rfl, fun start offset rest => interpolationTail_end⟩
    | succ depth =>
        rw [interpolationTail_close] at h
        obtain ⟨k, hk, rfl⟩ := exceptMap_eq_ok_iff.1 h
        exact (hrest.2 _ _ _ _ hk).behind [')'] rfl rfl fun _ _ _ _ _ _ =>
          ⟨_, _, interpolationTail_close⟩
  by_cases hquote : c = '"'
  · subst hquote
    exact interpolationTail_quote_closed ih h
  by_cases hnewline : c = '\n'
  · subst hnewline
    rw [interpolationTail.eq_def] at h
    cases h
  have hc : c ∉ ['(', ')', '"', '\n'] := by simp [hopen, hclose, hquote, hnewline]
  rw [interpolationTail_char hc] at h
  obtain ⟨k, hk, rfl⟩ := exceptMap_eq_ok_iff.1 h
  exact (hrest.2 _ _ _ _ hk).behind [c] rfl rfl fun _ _ _ _ _ _ => ⟨_, _, interpolationTail_char hc⟩

theorem tailsClosed (cs : List Char) : TailsClosed cs := by
  induction hlength : cs.length using Nat.strongRecOn generalizing cs with
  | ind length ih =>
      cases cs with
      | nil =>
          constructor
          · intro d start offset n h
            rw [literalTail] at h
            cases h
          · intro start offset depth n h
            rw [interpolationTail] at h
            cases h
      | cons c cs =>
          rw [List.length_cons] at hlength
          have hshort : ∀ ds : List Char, ds.length ≤ cs.length → TailsClosed ds :=
            fun ds hds => ih ds.length (by omega) ds rfl
          exact ⟨fun d start offset n => literalTail_closed hshort,
            fun start offset depth n => interpolationTail_closed hshort⟩

/-! ### Comments -/

/-- A block comment is closed by its own characters. -/
theorem blockCommentTail_closed {outer : Nat} (h : blockCommentTail outer cs = some n) :
    ∃ body rest, cs = body ++ ['*', '/'] ++ rest ∧ (body ++ ['*', '/']).length = n ∧
      ∀ rest, blockCommentTail outer (body ++ ['*', '/'] ++ rest) = some n := by
  fun_induction blockCommentTail outer cs generalizing n with
  | case1 outer cs ih =>
    obtain ⟨k, hk, rfl⟩ := Option.map_eq_some_iff.1 h
    obtain ⟨body, rest, rfl, rfl, hagain⟩ := ih hk
    refine ⟨'/' :: '*' :: body, rest, rfl, rfl, ?_⟩
    intro rest
    simp only [List.cons_append, blockCommentTail, hagain]
    rfl
  | case2 cs =>
    obtain rfl := Option.some.inj h
    exact ⟨[], cs, rfl, rfl, fun rest => rfl⟩
  | case3 outer cs ih =>
    obtain ⟨k, hk, rfl⟩ := Option.map_eq_some_iff.1 h
    obtain ⟨body, rest, rfl, rfl, hagain⟩ := ih hk
    refine ⟨'*' :: '/' :: body, rest, rfl, rfl, ?_⟩
    intro rest
    simp only [List.cons_append, blockCommentTail, hagain]
    rfl
  | case4 outer c cs hopen hend hclose ih =>
    obtain ⟨k, hk, rfl⟩ := Option.map_eq_some_iff.1 h
    obtain ⟨body, rest, rfl, rfl, hagain⟩ := ih hk
    refine ⟨c :: body, rest, rfl, rfl, ?_⟩
    intro rest'
    -- the closing is still to come, so the next character does not depend on what stands behind it
    have hnext : ∀ e ds, body ++ ['*', '/'] ++ rest' = e :: ds →
        ∃ ds', body ++ ['*', '/'] ++ rest = e :: ds' := by
      intro e ds he
      cases body with
      | nil => exact ⟨_, by rw [← (List.cons.inj he).1]; rfl⟩
      | cons b body => exact ⟨_, by rw [← (List.cons.inj he).1]; rfl⟩
    rw [List.cons_append, List.cons_append, blockCommentTail, hagain]
    · rfl
    · intro ds hc hds
      obtain ⟨ds', hds'⟩ := hnext _ _ hds
      exact hopen ds' hc hds'
    · intro ds houter hc hds
      obtain ⟨ds', hds'⟩ := hnext _ _ hds
      exact hend ds' houter hc hds'
    · intro more ds houter hc hds
      obtain ⟨ds', hds'⟩ := hnext _ _ hds
      exact hclose more ds' houter hc hds'
  | case5 => cases h

/-! ### What encloses text -/

/-- The text is at its end, or a newline follows. -/
def EndsLine (cs : List Char) : Prop := ∀ c ∈ cs.head?, c = '\n'

/-- A measurement finds some characters at the beginning of a text. It comes out the same on another
text that goes on behind them with the same visible text and, when they end a line, ends it too.
Unless they end a line, the last of them is no separator. -/
def EnclosedBy (measure : Nat → List Char → Except SyntaxError (LexemeKind × Nat))
    (cs : List Char) (kind : LexemeKind) (n : Nat) : Prop :=
  ∃ body rest, cs = body ++ rest ∧ body.length = n ∧
    (EndsLine rest ∨ ∃ front e, body = front ++ [e] ∧ isSeparator e = false) ∧
    ∀ start rest', visible rest' = visible rest → (EndsLine rest → EndsLine rest') →
      measure start (body ++ rest') = .ok (kind, n)

/-- A closing delimiter ends in a quote or in a hash sign. -/
theorem Delimiter.exists_closing (d : Delimiter) :
    ∃ front e, d.closing = front ++ [e] ∧ isSeparator e = false := by
  rw [closing, hashSigns]
  cases d.hashes with
  | zero => exact ⟨List.replicate d.furtherQuotes '"', '"', by simp [List.replicate_succ'], rfl⟩
  | succ hashes =>
      refine ⟨List.replicate (d.furtherQuotes + 1) '"' ++ List.replicate hashes '#', '#', ?_, rfl⟩
      rw [List.replicate_succ' (n := hashes), List.append_assoc]

/-- A string literal is closed by its delimiter. Behind an empty one it matters whether there is a
third quote. -/
theorem literalAfterQuote_closed {hashes : Nat} (h : literalAfterQuote hashes start cs = .ok n) :
    ∃ body rest, cs = body ++ rest ∧ body.length = n ∧
      (∃ front e, body = front ++ [e] ∧ isSeparator e = false) ∧
      ∀ start rest', visible rest' = visible rest →
        literalAfterQuote hashes start (body ++ rest') = .ok n := by
  obtain ⟨behind, hquotes⟩ := Delimiter.exists_of_atQuote hashes cs
  generalize hd : Delimiter.atQuote hashes cs = d at *
  subst hquotes
  simp only [literalAfterQuote, hd, d.drop_furtherQuotes] at h
  obtain ⟨k, hk, rfl⟩ := exceptMap_eq_ok_iff.1 h
  obtain ⟨body, rest, rfl, rfl, hagain⟩ := (tailsClosed behind).1 _ _ _ _ hk
  obtain ⟨front, e, hclosing, he⟩ := d.exists_closing
  refine ⟨d.quotes ++ (body ++ d.closing), rest, by simp, by simp; omega,
    ⟨d.quotes ++ (body ++ front), e, by simp [hclosing], he⟩, fun start rest' hrest => ?_⟩
  have hquotes : startsWith ['"', '"'] (d.quotes ++ (body ++ d.closing) ++ rest') =
      startsWith ['"', '"'] (d.quotes ++ (body ++ d.closing) ++ rest) :=
    startsWith_congr (by decide) (visible_append hrest _)
  have hd' : Delimiter.atQuote hashes (d.quotes ++ (body ++ d.closing) ++ rest') = d := by
    rw [← List.append_assoc] at hd
    rw [Delimiter.atQuote, hquotes]
    exact hd
  rw [literalAfterQuote, hd', List.append_assoc, d.drop_furtherQuotes]
  simp only [hagain]
  rfl

theorem measureSlash_enclosed {kind : LexemeKind} (h : measureSlash start cs = .ok (kind, n))
    (hkind : kind.shields = true) : EnclosedBy measureSlash cs kind n := by
  rw [measureSlash] at h
  split at h
  · rename_i hline
    obtain ⟨rfl, rfl⟩ := Prod.mk.inj (Except.ok.inj h)
    obtain ⟨line, rfl⟩ := exists_of_startsWith hline
    obtain ⟨body, rest, rfl, hbody, hends⟩ := exists_span (· != '\n') line
    have hrest : EndsLine rest := fun c hc => by simpa using hends c hc
    have hcomment : ∀ c ∈ '/' :: body, (c != '\n') = true := by simpa using hbody
    have htake : ∀ rest', EndsLine rest' →
        (('/' :: body) ++ rest').takeWhile (· != '\n') = '/' :: body :=
      fun rest' hrest' => takeWhile_span hcomment fun c hc => by simp [hrest' c hc]
    refine ⟨'/' :: body, rest, rfl, congrArg List.length (htake rest hrest).symm, .inl hrest,
      fun start rest' _ hends => ?_⟩
    have hopen : startsWith ['/'] (('/' :: body) ++ rest') = true := rfl
    rw [measureSlash, if_pos hopen, htake rest' (hends hrest)]
    exact congrArg (fun line : List Char => Except.ok (LexemeKind.token .comment, line.length))
      (htake rest hrest).symm
  · rename_i hline
    split at h
    · rename_i hblock
      obtain ⟨comment, rfl⟩ := exists_of_startsWith hblock
      split at h
      · rename_i m hm
        obtain ⟨rfl, rfl⟩ := Prod.mk.inj (Except.ok.inj h)
        obtain ⟨body, rest, hrest, rfl, hagain⟩ := blockCommentTail_closed hm
        refine ⟨'*' :: (body ++ ['*', '/']), rest, by simpa using hrest, rfl,
          .inr ⟨'*' :: (body ++ ['*']), '/', by simp, rfl⟩, fun start rest' _ _ => ?_⟩
        have hopen : startsWith ['/'] ('*' :: (body ++ ['*', '/']) ++ rest') = false := rfl
        have hstar : startsWith ['*'] ('*' :: (body ++ ['*', '/']) ++ rest') = true := rfl
        rw [measureSlash, hopen, if_neg (by decide), hstar, if_pos rfl]
        simp only [List.cons_append, List.drop_succ_cons, List.drop_zero, hagain]
      · cases h
    · obtain ⟨rfl, -⟩ := Prod.mk.inj (Except.ok.inj h)
      exact absurd hkind (by decide)

theorem measureHash_enclosed {kind : LexemeKind} (h : measureHash start cs = .ok (kind, n))
    (hkind : kind.shields = true) : EnclosedBy measureHash cs kind n := by
  obtain ⟨signs, quoted, rfl, hsigns, hquoted⟩ := exists_span (· == '#') cs
  have htake : ∀ rest, (signs ++ '"' :: rest).takeWhile (· == '#') = signs :=
    fun rest => takeWhile_span hsigns (by simp)
  rw [measureHash] at h
  simp only [takeWhile_span hsigns hquoted, Nat.add_sub_cancel, List.drop_left] at h
  split at h
  · rename_i hquote
    obtain ⟨literal, rfl⟩ := exists_of_startsWith hquote
    obtain ⟨k, hk, hresult⟩ := exceptMap_eq_ok_iff.1 h
    obtain ⟨rfl, rfl⟩ := Prod.mk.inj hresult
    obtain ⟨body, rest, hrest, rfl, ⟨front, e, rfl, he⟩, hagain⟩ := literalAfterQuote_closed hk
    refine ⟨signs ++ '"' :: (front ++ [e]), rest, ?_, ?_, .inr ⟨signs ++ '"' :: front, e, by simp, he⟩,
      fun start rest' hvisible _ => ?_⟩
    · have hliteral : literal = front ++ [e] ++ rest := hrest
      rw [hliteral]
      simp
    · simp
      omega
    · have hstart : startsWith ['"'] ('"' :: (front ++ [e] ++ rest')) = true := rfl
      have hliteral := hagain start rest' hvisible
      rw [measureHash, List.append_assoc, List.cons_append, htake]
      simp only [Nat.add_sub_cancel, List.drop_left, hstart, if_true, List.drop_succ_cons,
        List.drop_zero, hliteral]
      rfl
  · split at h
    · obtain ⟨rfl, -⟩ := Prod.mk.inj (Except.ok.inj h)
      exact absurd hkind (by decide)
    · obtain ⟨rfl, -⟩ := Prod.mk.inj (Except.ok.inj h)
      exact absurd hkind (by decide)

theorem shields_wordKind (word : List Char) : (LexemeKind.token (wordKind word)).shields = false := by
  rw [wordKind]
  split <;> rfl

/-- A comment or a string literal begins with a slash, a quote or a hash sign. -/
theorem first_of_shields {kind : LexemeKind} (h : measure start c cs = .ok (kind, n))
    (hkind : kind.shields = true) : c = '/' ∨ c = '"' ∨ c = '#' := by
  rw [← Decidable.not_not (p := _ ∨ _)]
  intro hc
  simp only [not_or] at hc
  obtain ⟨hslash, hquote, hhash⟩ := hc
  have hplain : kind.shields = false := by
    rw [measure] at h
    simp only [beq_iff_eq, hslash, hquote, hhash, if_false] at h
    split at h
    · rw [measureBacktick] at h
      split at h
      · obtain ⟨rfl, -⟩ := Prod.mk.inj (Except.ok.inj h)
        rfl
      · cases h
    · repeat' split at h
      all_goals
        obtain ⟨rfl, -⟩ := Prod.mk.inj (Except.ok.inj h)
        first | rfl | exact shields_wordKind _
  simp [hplain] at hkind

/-- A comment or a string literal is measured in the same way wherever its characters stand. -/
theorem measure_enclosed {kind : LexemeKind} (h : measure start c cs = .ok (kind, n))
    (hkind : kind.shields = true) : EnclosedBy (fun start => measure start c) cs kind n := by
  rcases first_of_shields h hkind with rfl | rfl | rfl
  · exact measureSlash_enclosed h hkind
  · obtain ⟨k, hk, hresult⟩ := exceptMap_eq_ok_iff.1 h
    obtain ⟨rfl, rfl⟩ := Prod.mk.inj hresult
    obtain ⟨body, rest, rfl, rfl, hends, hagain⟩ := literalAfterQuote_closed hk
    refine ⟨body, rest, rfl, rfl, .inr hends, ?_⟩
    intro start rest' hrest _
    show (literalAfterQuote 0 start (body ++ rest')).map _ = _
    rw [hagain start rest' hrest]
    rfl
  · exact measureHash_enclosed h hkind

/-! ### Names in backticks -/

theorem measureBacktick_append {name : List Char} (hname : '\x60' ∉ name) (start : Nat)
    (rest : List Char) :
    measureBacktick start (name ++ '\x60' :: rest) = .ok (.token .identifier, name.length + 1) := by
  have hfind : (name ++ '\x60' :: rest).findIdx? (· == '\x60') = some name.length := by
    induction name with
    | nil => rfl
    | cons c name ih =>
        rw [List.mem_cons, not_or] at hname
        have hc : (c == '\x60') = false := beq_eq_false_iff_ne.2 (Ne.symm hname.1)
        rw [List.cons_append, List.findIdx?_cons, hc, ih hname.2]
        rfl
  rw [measureBacktick, hfind]

/-- A name in backticks goes on up to the next backtick. -/
theorem exists_of_measureBacktick {kind : LexemeKind} (h : measureBacktick start cs = .ok (kind, n)) :
    ∃ name rest, cs = name ++ '\x60' :: rest ∧ '\x60' ∉ name ∧ kind = .token .identifier ∧
      n = name.length + 1 := by
  obtain ⟨name, rest, rfl, hname, hrest⟩ := exists_span (· != '\x60') cs
  have hfresh : '\x60' ∉ name := fun hmem => by simpa using hname _ hmem
  cases rest with
  | nil =>
      have hnone : (name ++ []).findIdx? (· == '\x60') = none := by
        rw [List.findIdx?_eq_none_iff]
        intro c hc
        rw [List.append_nil] at hc
        simpa using hname c hc
      rw [measureBacktick, hnone] at h
      cases h
  | cons c rest =>
      obtain rfl : c = '\x60' := by simpa using hrest c rfl
      rw [measureBacktick_append hfresh] at h
      obtain ⟨rfl, rfl⟩ := Prod.mk.inj (Except.ok.inj h)
      exact ⟨name, rest, rfl, hfresh, rfl, rfl⟩

/-- What a measurement counts lies in the text. -/
theorem le_length_of_measure {kind : LexemeKind} (h : measure start c cs = .ok (kind, n)) :
    n ≤ cs.length := by
  cases hkind : kind.shields with
  | true =>
      obtain ⟨body, rest, rfl, rfl, -⟩ := measure_enclosed h hkind
      simp
  | false =>
      by_cases hc : c = '\x60'
      · subst hc
        obtain ⟨name, rest, rfl, -, -, rfl⟩ := exists_of_measureBacktick h
        simp
      · exact Nat.le_trans (measure_settled h hkind hc).1 (length_visible_le cs)

end SourceLint.Lexeme
