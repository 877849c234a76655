import SourceLint.Proofs.Bytes.Encoding

/-!
# String literals read byte by byte

An escape in a string literal takes one character along. Read byte by byte, it takes only the first byte
of this character. The other bytes are then read as any text of the literal, and they neither end it nor
begin another escape; so the literal ends at the same place.

## Implementation notes

The functions that measure string literals carry offsets for their errors, and these are offsets of
characters. So results are compared as far as there are any, whatever the offsets are.
-/

namespace SourceLint.Lexeme

/-- The second measurement finds as many bytes of a text as the characters have that the first one
finds, and it finds nothing where the first one does not. -/
def InBytes (cs : List Char) (inChars inBytes : Except SyntaxError Nat) : Prop :=
  inBytes.toOption = inChars.toOption.map fun n => byteLength (cs.take n)

theorem toOption_map {α β : Type} (f : α → β) (r : Except SyntaxError α) :
    (r.map f).toOption = r.toOption.map f := by
  cases r with
  | error e => rfl
  | ok a => rfl

namespace InBytes

variable {cs : List Char} {inChars inBytes : Except SyntaxError Nat}

theorem error (cs : List Char) (e e' : SyntaxError) : InBytes cs (.error e) (.error e') := rfl

theorem ok (front cs : List Char) :
    InBytes (front ++ cs) (.ok front.length) (.ok (byteLength front)) := by
  show some (byteLength front) = some (byteLength ((front ++ cs).take front.length))
  rw [List.take_left]

/-- Both measurements go on behind a common front. -/
theorem append (front : List Char) (h : InBytes cs inChars inBytes) :
    InBytes (front ++ cs) (inChars.map (· + front.length)) (inBytes.map (· + byteLength front)) := by
  rw [InBytes] at h ⊢
  rw [toOption_map, toOption_map, h, Option.map_map, Option.map_map]
  congr 1
  funext n
  exact (byteLength_take_append front cs n).symm

end InBytes

theorem isHigh_hashSigns (d : Delimiter) : ∀ e ∈ d.hashSigns, ¬IsHigh e := by
  intro e he
  rw [List.eq_of_mem_replicate he]
  decide

theorem isHigh_closing (d : Delimiter) : ∀ e ∈ d.closing, ¬IsHigh e := by
  intro e he
  rcases List.mem_append.1 he with he | he
  · rw [List.eq_of_mem_replicate he]
    decide
  · exact isHigh_hashSigns d e he

/-- Bytes beyond ASCII neither end a literal nor begin an escape. -/
theorem literalTail_high {high : List Char} (hhigh : ∀ e ∈ high, IsHigh e) (d : Delimiter)
    (start offset : Nat) (cs : List Char) :
    literalTail d start offset (high ++ cs) =
      (literalTail d start (offset + byteLength high) cs).map (· + high.length) := by
  induction high generalizing offset with
  | nil =>
      cases h : literalTail d start offset cs with
      | error e => simp [h, Except.map]
      | ok n => simp [h, Except.map]
  | cons c high ih =>
      have hc := hhigh c List.mem_cons_self
      have hclosing : ¬startsWith d.closing (c :: (high ++ cs)) = true := by
        intro hclosing
        obtain ⟨rest, hrest⟩ := exists_of_startsWith hclosing
        have hquote : d.closing = '"' :: (List.replicate d.furtherQuotes '"' ++ d.hashSigns) := by
          simp [Delimiter.closing, List.replicate_succ]
        rw [hquote, List.cons_append] at hrest
        exact ne_of_isHigh hc (by decide) (List.cons.inj hrest).1
      rw [List.cons_append, literalTail_char _ _ hclosing,
        ih fun e he => hhigh e (List.mem_cons_of_mem _ he)]
      · cases h : literalTail d start (offset + byteLength (c :: high)) cs with
        | error e => simp_all [Except.map, Nat.add_assoc]
        | ok n => simp_all [Except.map, Nat.add_assoc]
      · simp [ne_of_isHigh hc (d := '\n') (by decide)]
      · simp [ne_of_isHigh hc (d := '\\') (by decide)]

theorem plain_of_isHigh {c : Char} (hc : IsHigh c) : c ∉ ['(', ')', '"', '\n'] := by
  intro hmem
  have hascii : ∀ d ∈ ['(', ')', '"', '\n'], ¬IsHigh d := ascii_of_any (by decide)
  exact hascii c hmem hc

/-- Bytes beyond ASCII do not end an interpolation. -/
theorem interpolationTail_high {high : List Char} (hhigh : ∀ e ∈ high, IsHigh e)
    (start offset depth : Nat) (cs : List Char) :
    interpolationTail start offset depth (high ++ cs) =
      (interpolationTail start (offset + byteLength high) depth cs).map (· + high.length) := by
  induction high generalizing offset with
  | nil =>
      cases h : interpolationTail start offset depth cs with
      | error e => simp [h, Except.map]
      | ok n => simp [h, Except.map]
  | cons c high ih =>
      have hc := hhigh c List.mem_cons_self
      rw [List.cons_append, interpolationTail_char (plain_of_isHigh hc),
        ih fun e he => hhigh e (List.mem_cons_of_mem _ he)]
      cases h : interpolationTail start (offset + byteLength (c :: high)) depth cs with
      | error e => simp_all [Except.map, Nat.add_assoc]
      | ok n => simp_all [Except.map, Nat.add_assoc]

/-- The tail of a literal and that of an interpolation are found in the bytes of a text as in its
characters. -/
def TailsInBytes (cs : List Char) : Prop :=
  (∀ d start start' offset offset',
    InBytes cs (literalTail d start offset cs) (literalTail d start' offset' (bytes cs))) ∧
  ∀ start start' offset offset' depth, InBytes cs (interpolationTail start offset depth cs)
    (interpolationTail start' offset' depth (bytes cs))

variable {c : Char} {cs : List Char}

/-- A measurement that goes on behind a first piece. -/
def measureBehind (first : Except SyntaxError Nat) (next : Nat → Except SyntaxError Nat)
    (total : Nat → Nat) : Except SyntaxError Nat :=
  match first with
  | .error e => .error e
  | .ok n => (next n).map (· + total n)

/-- Behind a common front and a first piece, both measurements go on. -/
theorem InBytes.behind (front : List Char) {first first' : Except SyntaxError Nat}
    {next next' : Nat → Except SyntaxError Nat} {total total' : Nat → Nat}
    (htotal : ∀ n, total n = n + front.length) (htotal' : ∀ n, total' n = n + byteLength front)
    (hfirst : InBytes cs first first') (hle : ∀ n, first = .ok n → n ≤ cs.length)
    (hnext : ∀ n, InBytes (cs.drop n) (next n) (next' (byteLength (cs.take n)))) :
    InBytes (front ++ cs) (measureBehind first next total) (measureBehind first' next' total') := by
  cases first with
  | error e =>
      cases first' with
      | error e' => rfl
      | ok n => cases hfirst
  | ok n =>
      cases first' with
      | error e' => cases hfirst
      | ok n' =>
          obtain rfl : n' = byteLength (cs.take n) := Option.some.inj hfirst
          have happend := (hnext n).append (front ++ cs.take n)
          rw [List.append_assoc, List.take_append_drop, List.length_append, byteLength_append,
            List.length_take_of_le (hle n rfl), Nat.add_comm front.length,
            Nat.add_comm (byteLength front), ← htotal, ← htotal'] at happend
          exact happend

theorem interpolationTail_le {start offset depth n : Nat}
    (h : interpolationTail start offset depth cs = .ok n) : n ≤ cs.length := by
  obtain ⟨body, rest, rfl, rfl, -⟩ := (tailsClosed cs).2 _ _ _ _ h
  simp

theorem literalTail_le {d : Delimiter} {start offset n : Nat}
    (h : literalTail d start offset cs = .ok n) : n ≤ cs.length := by
  obtain ⟨body, rest, rfl, rfl, -⟩ := (tailsClosed cs).1 _ _ _ _ h
  simp

/-- A literal goes on behind a character of any kind, read as one character or as its bytes. -/
theorem literalTail_bytes_char (ih : TailsInBytes cs) (d : Delimiter) (start start' offset offset' : Nat)
    (hnewline : ¬(c == '\n' && !d.isMultiline) = true)
    (hescape : ¬(c == '\\' && startsWith d.hashSigns cs) = true)
    (hclosing : ¬startsWith d.closing (c :: cs) = true) :
    InBytes (c :: cs) (literalTail d start offset (c :: cs))
      (literalTail d start' offset' (bytes (c :: cs))) := by
  rw [literalTail_char hnewline hescape hclosing]
  by_cases hc : IsHigh c
  · have hsplit : bytes (c :: cs) = bytes [c] ++ bytes cs := bytes_append [c] cs
    rw [hsplit, literalTail_high (isHigh_of_mem_bytes hc), length_bytes]
    exact (ih.1 d _ _ _ _).append [c]
  · have hescape' : ¬(c == '\\' && startsWith d.hashSigns (bytes cs)) = true := by
      rwa [startsWith_bytes (isHigh_hashSigns d)]
    have hclosing' : ¬startsWith d.closing (c :: bytes cs) = true := by
      rwa [← bytes_cons_ascii hc, startsWith_bytes (isHigh_closing d)]
    have hlength : byteLength [c] = 1 := utf8Size_of_ascii hc
    rw [bytes_cons_ascii hc, literalTail_char hnewline hescape' hclosing']
    have happend := (ih.1 d start start' (offset + c.utf8Size) (offset' + c.utf8Size)).append [c]
    rwa [hlength] at happend

/-- An escape without anything behind it has no end. -/
theorem literalTail_escape_nil (d : Delimiter) (start offset : Nat) :
    literalTail d start offset ('\\' :: (d.hashSigns ++ [])) = .error (.unterminatedString start) := by
  have hparen : ¬startsWith ['('] ([] : List Char) = true := by decide
  have hescape : ('\\' == '\\' && startsWith d.hashSigns (d.hashSigns ++ [])) = true := by
    rw [startsWith_self_append]
    rfl
  rw [literalTail, if_neg (by simp), if_pos hescape]
  simp only [drop_hashSigns, if_neg hparen, List.drop_nil, literalTail]
  rfl

/-- Of a character behind an escape only the first byte is taken along, and the others are read on. -/
theorem literalTail_escape_bytes (hc : c ≠ '(') (d : Delimiter) (start offset : Nat) :
    ∃ offset', literalTail d start offset ('\\' :: (d.hashSigns ++ bytes (c :: cs))) =
      (literalTail d start offset' (bytes cs)).map
        (· + byteLength ('\\' :: (d.hashSigns ++ [c]))) := by
  have hlength : byteLength ('\\' :: (d.hashSigns ++ [c])) = d.hashes + 1 + c.utf8Size := by
    rw [byteLength_cons, byteLength_append, byteLength_ascii (isHigh_hashSigns d), d.length_hashSigns,
      utf8Size_of_ascii (by decide), byteLength_cons, byteLength_nil]
    omega
  rw [hlength]
  by_cases hhigh : IsHigh c
  · obtain ⟨b, high, hbytes, hsize, hb, hhigh⟩ := exists_bytes_cons hhigh
    refine ⟨offset + 1 + d.hashes + b.utf8Size + byteLength high, ?_⟩
    rw [hbytes, literalTail_escape (ne_of_isHigh hb (by decide)), literalTail_high hhigh, ← hsize]
    cases literalTail d start (offset + 1 + d.hashes + b.utf8Size + byteLength high) (bytes cs) with
    | error e => rfl
    | ok n =>
        simp only [Except.map]
        congr 1
        omega
  · rw [bytes_cons_ascii hhigh, literalTail_escape hc, utf8Size_of_ascii hhigh]
    exact ⟨_, rfl⟩

theorem literalTail_bytes (ih : ∀ ds, ds.length ≤ cs.length → TailsInBytes ds) (d : Delimiter)
    (start start' offset offset' : Nat) :
    InBytes (c :: cs) (literalTail d start offset (c :: cs))
      (literalTail d start' offset' (bytes (c :: cs))) := by
  have hhash := isHigh_hashSigns d
  by_cases hnewline : (c == '\n' && !d.isMultiline) = true
  · have hchar : c = '\n' := by
      rw [Bool.and_eq_true, beq_iff_eq] at hnewline
      exact hnewline.1
    have hc : ¬IsHigh c := by
      rw [hchar]
      decide
    rw [bytes_cons_ascii hc, literalTail, literalTail, if_pos hnewline, if_pos hnewline]
    exact .error _ _ _
  by_cases hescape : (c == '\\' && startsWith d.hashSigns cs) = true
  · have hhashes := hescape
    simp only [Bool.and_eq_true, beq_iff_eq] at hhashes
    obtain ⟨rfl, hhashes⟩ := hhashes
    obtain ⟨escaped, rfl⟩ := exists_of_startsWith hhashes
    have hc : ¬IsHigh '\\' := by decide
    have hlength := d.length_hashSigns
    rw [bytes_cons_ascii hc, bytes_ascii hhash]
    cases escaped with
    | nil =>
        rw [bytes_nil, literalTail_escape_nil, literalTail_escape_nil]
        exact .error _ _ _
    | cons e es =>
        by_cases he : e = '('
        · subst he
          have hparen : ¬IsHigh '(' := by decide
          have hinside := (ih es (by simp; omega)).2
          have hrest : ∀ n, TailsInBytes (es.drop n) := fun n => ih _ (by simp; omega)
          have hfront : ('\\' :: (d.hashSigns ++ ['('])).length = d.hashes + 2 := by simp [hlength]
          have hfront' : byteLength ('\\' :: (d.hashSigns ++ ['('])) = d.hashes + 2 := by
            rw [← hfront]
            apply byteLength_ascii
            simp only [List.mem_cons, List.mem_append, List.not_mem_nil, or_false]
            rintro e (rfl | he | rfl)
            · exact hc
            · exact hhash e he
            · exact hparen
          have hsplit : '\\' :: (d.hashSigns ++ '(' :: es) = '\\' :: (d.hashSigns ++ ['(']) ++ es := by
            simp
          rw [bytes_cons_ascii hparen, literalTail_interpolation, literalTail_interpolation, hsplit]
          refine InBytes.behind ('\\' :: (d.hashSigns ++ ['('])) (fun n => ?_) (fun n => ?_)
            (hinside _ _ _ _ _) (fun n => interpolationTail_le) fun n => ?_
          · rw [hfront, Nat.add_assoc]
          · rw [hfront', Nat.add_assoc]
          · rw [drop_bytes]
            exact (hrest n).1 _ _ _ _ _
        · obtain ⟨offset', hbytes⟩ := @literalTail_escape_bytes e es he d start' offset'
          have hlength' : ('\\' :: (d.hashSigns ++ [e])).length = d.hashes + 2 := by simp [hlength]
          have happend := ((ih es (by simp; omega)).1 d start start'
            (offset + 1 + d.hashes + e.utf8Size) offset').append ('\\' :: (d.hashSigns ++ [e]))
          rw [literalTail_escape he, hbytes, ← hlength']
          simpa using happend
  by_cases hclosing : startsWith d.closing (c :: cs) = true
  · obtain ⟨rest, hrest⟩ := exists_of_startsWith hclosing
    rw [hrest, bytes_ascii (isHigh_closing d), literalTail_closing, literalTail_closing]
    have hok := InBytes.ok d.closing rest
    rwa [byteLength_ascii (isHigh_closing d)] at hok
  exact literalTail_bytes_char (ih cs (Nat.le_refl _)) d start start' offset offset' hnewline hescape
    hclosing

/-- The delimiter at a quote is the same in bytes. -/
theorem atQuote_bytes (hashes : Nat) (cs : List Char) :
    Delimiter.atQuote hashes (bytes cs) = Delimiter.atQuote hashes cs := by
  rw [Delimiter.atQuote, Delimiter.atQuote, startsWith_bytes (ascii_of_any (by decide))]

theorem isHigh_quotes (d : Delimiter) : ∀ e ∈ d.quotes, ¬IsHigh e := by
  intro e he
  rw [List.eq_of_mem_replicate he]
  decide

theorem interpolationTail_bytes (ih : ∀ ds, ds.length ≤ cs.length → TailsInBytes ds)
    (start start' offset offset' depth : Nat) :
    InBytes (c :: cs) (interpolationTail start offset depth (c :: cs))
      (interpolationTail start' offset' depth (bytes (c :: cs))) := by
  have hrest := (ih cs (Nat.le_refl _)).2
  by_cases hc : IsHigh c
  · have hsplit : bytes (c :: cs) = bytes [c] ++ bytes cs := bytes_append [c] cs
    rw [hsplit, interpolationTail_high (isHigh_of_mem_bytes hc), length_bytes,
      interpolationTail_char (plain_of_isHigh hc)]
    exact (hrest _ _ _ _ _).append [c]
  have hlength : byteLength [c] = 1 := utf8Size_of_ascii hc
  have hstep : ∀ start start' offset offset' depth, InBytes (c :: cs)
      ((interpolationTail start offset depth cs).map (· + 1))
      ((interpolationTail start' offset' depth (bytes cs)).map (· + 1)) := by
    intro start start' offset offset' depth
    have happend := (hrest start start' offset offset' depth).append [c]
    rwa [hlength] at happend
  rw [bytes_cons_ascii hc]
  by_cases hopen : c = '('
  · subst hopen
    rw [interpolationTail_open, interpolationTail_open]
    exact hstep _ _ _ _ _
  by_cases hclose : c = ')'
  · subst hclose
    cases depth with
    | zero =>
        rw [interpolationTail_end, interpolationTail_end]
        exact .ok [')'] cs
    | succ depth =>
        rw [interpolationTail_close, interpolationTail_close]
        exact hstep _ _ _ _ _
  by_cases hquote : c = '"'
  · subst hquote
    rw [interpolationTail_quote, interpolationTail_quote, atQuote_bytes]
    obtain ⟨behind, hquotes⟩ := Delimiter.exists_of_atQuote 0 cs
    generalize Delimiter.atQuote 0 cs = d at *
    subst hquotes
    rw [bytes_ascii (isHigh_quotes d)]
    simp only [← List.drop_drop, d.drop_furtherQuotes]
    have hbehind := (ih behind (by simp)).1
    have hafter : ∀ n, TailsInBytes (behind.drop n) := fun n => ih _ (by simp; omega)
    refine InBytes.behind ('"' :: d.quotes) (fun n => ?_) (fun n => ?_) (hbehind _ _ _ _ _)
      (fun n => literalTail_le) fun n => ?_
    · rw [List.length_cons, d.length_quotes]
      omega
    · rw [byteLength_cons, byteLength_ascii (isHigh_quotes d), d.length_quotes, utf8Size_of_ascii hc]
      omega
    · rw [drop_bytes]
      exact (hafter n).2 _ _ _ _ _
  by_cases hnewline : c = '\n'
  · subst hnewline
    rw [interpolationTail.eq_def, interpolationTail.eq_def]
    exact .error _ _ _
  · have hplain : c ∉ ['(', ')', '"', '\n'] := by simp [hopen, hclose, hquote, hnewline]
    rw [interpolationTail_char hplain, interpolationTail_char hplain]
    exact hstep _ _ _ _ _

theorem tailsInBytes (cs : List Char) : TailsInBytes cs := by
  induction hlength : cs.length using Nat.strongRecOn generalizing cs with
  | ind length ih =>
      cases cs with
      | nil =>
          constructor
          · intro d start start' offset offset'
            rw [bytes_nil, literalTail, literalTail]
            exact .error _ _ _
          · intro start start' offset offset' depth
            rw [bytes_nil, interpolationTail, interpolationTail]
            exact .error _ _ _
      | cons c cs =>
          rw [List.length_cons] at hlength
          have hshort : ∀ ds : List Char, ds.length ≤ cs.length → TailsInBytes ds :=
            fun ds hds => ih ds.length (by omega) ds rfl
          exact ⟨literalTail_bytes hshort, interpolationTail_bytes hshort⟩

end SourceLint.Lexeme
