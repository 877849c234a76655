import SourceLint.Proofs.Bytes.Literals
import SourceLint.Proofs.Syntax.Shading

/-!
# String literals without interpolations

A string literal without interpolations is a run of escapes and of other characters up to its closing delimiter. An
escape takes the character behind it along, and every other character is looked at: in a literal of one line it is no
newline. So a newline in such a literal is escaped, and a literal with another newline has no end. A text without
escapes and closing delimiters comes out of raw quotes as it went in.

## Main results

* `PlainRun.scan_eq_error`, `PlainRun.scan_eq`: what is scanned where a literal of one line begins.
* `escapes_of_newline`: the newlines in the string lexemes of a source.
* `ofSource_rawQuoted`: raw quotes are undone.
-/

namespace SourceLint.Lexeme

/-! ### Runs -/

/-- A part of a string literal stands between the beginning of the text and the rest: escapes, each with the character
behind it, and other characters at which the literal goes on. No interpolation begins in it. -/
inductive PlainRun (d : Delimiter) : (text rest : List Char) → Prop
  | empty (rest : List Char) : PlainRun d rest rest
  | escape {c : Char} {cs rest : List Char} (plain : c ≠ '(') (later : PlainRun d cs rest) :
      PlainRun d ('\\' :: (d.hashSigns ++ c :: cs)) rest
  | other {c : Char} {cs rest : List Char} (line : ¬(c == '\n' && !d.isMultiline) = true)
      (escapes : ¬(c == '\\' && startsWith d.hashSigns cs) = true) (closes : ¬startsWith d.closing (c :: cs) = true)
      (later : PlainRun d cs rest) : PlainRun d (c :: cs) rest

/-- A literal does not go on with the text: the text is over, if need be behind an escape, or a literal of one line
comes to a newline. -/
inductive BreaksOff (d : Delimiter) : (text : List Char) → Prop
  | ending : BreaksOff d []
  | escapes : BreaksOff d ('\\' :: d.hashSigns)
  | newline (single : d.isMultiline = false) (behind : List Char) : BreaksOff d ('\n' :: behind)

/-- An interpolation begins in the text behind a part of the literal. -/
def Interpolates (d : Delimiter) (text : List Char) : Prop :=
  ∃ inside, PlainRun d text ('\\' :: (d.hashSigns ++ '(' :: inside))

variable {d : Delimiter} {cs rest behind : List Char}

/-- A text begins with a part of a literal. Then an interpolation begins, or the literal is closed or breaks off. -/
theorem exists_plainRun (d : Delimiter) (cs : List Char) :
    Interpolates d cs ∨ ∃ rest, PlainRun d cs rest ∧ (BreaksOff d rest ∨ ∃ behind, rest = d.closing ++ behind) := by
  induction hlength : cs.length using Nat.strongRecOn generalizing cs with
  | ind length ih =>
      cases cs with
      | nil => exact .inr ⟨[], .empty _, .inl .ending⟩
      | cons c cs =>
          rw [List.length_cons] at hlength
          by_cases hnewline : (c == '\n' && !d.isMultiline) = true
          · rw [Bool.and_eq_true, beq_iff_eq, Bool.not_eq_true'] at hnewline
            obtain ⟨rfl, hsingle⟩ := hnewline
            exact .inr ⟨_, .empty _, .inl (.newline hsingle cs)⟩
          by_cases hescape : (c == '\\' && startsWith d.hashSigns cs) = true
          · rw [Bool.and_eq_true, beq_iff_eq] at hescape
            obtain ⟨rfl, hsigns⟩ := hescape
            obtain ⟨escaped, rfl⟩ := exists_of_startsWith hsigns
            rcases escaped with - | ⟨e, es⟩
            · rw [List.append_nil]
              exact .inr ⟨_, .empty _, .inl .escapes⟩
            by_cases hparen : e = '('
            · subst hparen
              exact .inl ⟨es, .empty _⟩
            rcases ih es.length (by simp at hlength; omega) es rfl with ⟨inside, hrun⟩ | ⟨rest, hrun, hrest⟩
            · exact .inl ⟨inside, .escape hparen hrun⟩
            · exact .inr ⟨rest, .escape hparen hrun, hrest⟩
          by_cases hclosing : startsWith d.closing (c :: cs) = true
          · obtain ⟨behind, hbehind⟩ := exists_of_startsWith hclosing
            exact .inr ⟨_, .empty _, .inr ⟨behind, hbehind⟩⟩
          rcases ih cs.length (by omega) cs rfl with ⟨inside, hrun⟩ | ⟨rest, hrun, hrest⟩
          · exact .inl ⟨inside, .other hnewline hescape hclosing hrun⟩
          · exact .inr ⟨rest, .other hnewline hescape hclosing hrun, hrest⟩

namespace PlainRun

/-- A part of a literal is stepped over. -/
theorem literalTail_eq (h : PlainRun d cs rest) (start offset : Nat) :
    ∃ front offset', cs = front ++ rest ∧
      literalTail d start offset cs = (literalTail d start offset' rest).map (· + front.length) := by
  induction h generalizing offset with
  | empty rest => exact ⟨[], offset, rfl, by cases literalTail d start offset rest <;> rfl⟩
  | @escape c cs rest plain later ih =>
      obtain ⟨front, offset', rfl, hlater⟩ := ih (offset + 1 + d.hashes + c.utf8Size)
      refine ⟨'\\' :: (d.hashSigns ++ c :: front), offset', by simp, ?_⟩
      rw [literalTail_escape plain, hlater, exceptMap_map]
      congr 1
      funext n
      simp [d.length_hashSigns]
      omega
  | @other c cs rest line escapes closes later ih =>
      obtain ⟨front, offset', rfl, hlater⟩ := ih (offset + c.utf8Size)
      refine ⟨c :: front, offset', rfl, ?_⟩
      rw [literalTail_char line escapes closes, hlater, exceptMap_map]
      rfl

/-- A closing delimiter behind a part of a literal is its end. -/
theorem exists_body (h : PlainRun d cs (d.closing ++ behind)) (start offset : Nat) :
    ∃ body, cs = body ++ d.closing ++ behind ∧
      literalTail d start offset cs = .ok (body ++ d.closing).length := by
  obtain ⟨body, offset', hparts, htail⟩ := h.literalTail_eq start offset
  refine ⟨body, by rw [hparts, List.append_assoc], ?_⟩
  rw [htail, literalTail_closing, List.length_append, Nat.add_comm]
  rfl

/-- Where a literal breaks off, it is unterminated. -/
theorem unterminated (h : PlainRun d cs rest) (hrest : BreaksOff d rest) (start offset : Nat) :
    literalTail d start offset cs = .error (.unterminatedString start) := by
  obtain ⟨front, offset', -, htail⟩ := h.literalTail_eq start offset
  have hnothing : literalTail d start offset' rest = .error (.unterminatedString start) := by
    cases hrest with
    | ending => rw [literalTail]
    | escapes =>
        rw [← List.append_nil d.hashSigns, literalTail_escape_nil]
    | newline single behind => rw [literalTail, if_pos (by simp [single])]
  rw [htail, hnothing]
  rfl

end PlainRun

/-! ### Newlines -/

/-- A newline in a literal of one line stands behind the backslash and the hash signs of an escape. -/
theorem PlainRun.isSuffix_of_newline {front back : List Char} (hsingle : d.isMultiline = false)
    (h : PlainRun d (front ++ '\n' :: (back ++ rest)) rest) : '\\' :: d.hashSigns <:+ front := by
  generalize htext : front ++ '\n' :: (back ++ rest) = text at h
  induction h generalizing front with
  | empty rest =>
      have hlength := congrArg List.length htext
      simp at hlength
      omega
  | @escape c cs rest plain later ih =>
      have hparts : front ++ '\n' :: (back ++ rest) = ('\\' :: d.hashSigns) ++ c :: cs := htext
      rcases Shading.append_cons_eq_append hparts with ⟨between, rfl, hrest⟩ | ⟨inside, hsigns⟩
      · rcases between with - | ⟨b, between⟩
        · exact ⟨[], by simp⟩
        · exact (ih (List.cons.inj hrest).2).trans ⟨'\\' :: d.hashSigns ++ [b], by simp⟩
      · have hmem : '\n' ∈ '\\' :: d.hashSigns := by simp [hsigns]
        simp [Delimiter.hashSigns] at hmem
  | @other c cs rest line escapes closes later ih =>
      rcases front with - | ⟨e, front⟩
      · obtain ⟨rfl, -⟩ := List.cons.inj htext
        simp [hsingle] at line
      · exact (ih (List.cons.inj htext).2).trans (List.suffix_cons e front)

/-! ### Lexemes -/

variable {start n : Nat} {c : Char} {tail : List Char}

/-- Behind hash signs and a quote a literal is measured. -/
theorem measureHash_quote (hashes start : Nat) (cs : List Char) :
    measureHash start (List.replicate hashes '#' ++ '"' :: cs) =
      (literalAfterQuote (hashes + 1) start cs).map fun n => (.token .string, hashes + 1 + n) := by
  have htake : (List.replicate hashes '#' ++ '"' :: cs).takeWhile (· == '#') = List.replicate hashes '#' :=
    takeWhile_span (fun c hc => by rw [List.eq_of_mem_replicate hc]; rfl) (by simp)
  have hquote : startsWith ['"'] ('"' :: cs) = true := startsWith_self_append ['"'] cs
  have hquoted : (List.replicate hashes '#' ++ '"' :: cs).drop hashes = '"' :: cs :=
    List.drop_left' List.length_replicate
  rw [measureHash, htake, List.length_replicate]
  simp only [Nat.add_sub_cancel, hquoted, if_pos hquote, List.drop_succ_cons, List.drop_zero]

/-- The quotes of a delimiter are found where less stands behind them. -/
theorem Delimiter.atQuote_quotes {hashes : Nat} {front : List Char}
    (h : Delimiter.atQuote hashes (d.quotes ++ (front ++ behind)) = d) :
    Delimiter.atQuote hashes (d.quotes ++ front) = d := by
  have hmultiline : startsWith ['"', '"'] (d.quotes ++ (front ++ behind)) = d.isMultiline :=
    congrArg Delimiter.isMultiline h
  have hhashes : hashes = d.hashes := congrArg Delimiter.hashes h
  have hfront : startsWith ['"', '"'] (d.quotes ++ front) = d.isMultiline := by
    cases hd : d.isMultiline with
    | true =>
        have hquotes : d.quotes = ['"', '"'] := by simp [Delimiter.quotes, Delimiter.furtherQuotes, hd]
        rw [hquotes]
        exact startsWith_self_append _ _
    | false =>
        rw [hd, ← Bool.not_eq_true] at hmultiline
        rw [← Bool.not_eq_true]
        intro hstarts
        rw [← List.append_assoc] at hmultiline
        exact hmultiline (List.isPrefixOf_iff_prefix.2
          ((List.isPrefixOf_iff_prefix.1 hstarts).trans (List.prefix_append _ _)))
  rw [Delimiter.atQuote, hfront, hhashes]

/-- The characters of a literal are enough to measure it. -/
theorem exists_of_literalAfterQuote {hashes : Nat} (h : literalAfterQuote hashes start cs = .ok n) :
    ∃ tail behind, cs = tail ++ behind ∧ tail.length = n ∧ literalAfterQuote hashes start tail = .ok n := by
  obtain ⟨quoted, hquotes⟩ := Delimiter.exists_of_atQuote hashes cs
  generalize hd : Delimiter.atQuote hashes cs = d at *
  subst hquotes
  simp only [literalAfterQuote, hd, d.drop_furtherQuotes] at h
  obtain ⟨k, hk, rfl⟩ := exceptMap_eq_ok_iff.1 h
  obtain ⟨body, behind, rfl, rfl, hagain⟩ := (tailsClosed quoted).1 _ _ _ _ hk
  have htail := hagain start (start + hashes + 1 + d.furtherQuotes) []
  rw [List.append_nil] at htail
  refine ⟨d.quotes ++ (body ++ d.closing), behind, by simp, by simp; omega, ?_⟩
  rw [literalAfterQuote, Delimiter.atQuote_quotes hd]
  simp only [d.drop_furtherQuotes, htail]
  rfl

theorem measureSlash_ne_string (start n : Nat) (cs : List Char) :
    measureSlash start cs ≠ .ok (.token .string, n) := by
  rw [measureSlash]
  split
  · simp
  split
  · split <;> simp
  · simp

/-- A string literal is some hash signs, a quote and what is measured behind it. -/
theorem exists_of_measure_string {body : List Char}
    (h : measure start c (body ++ behind) = .ok (.token .string, body.length)) :
    ∃ hashes tail, c :: body = List.replicate hashes '#' ++ '"' :: tail ∧
      literalAfterQuote hashes start tail = .ok tail.length := by
  rcases first_of_shields h rfl with rfl | rfl | rfl
  · exact absurd h (measureSlash_ne_string _ _ _)
  · obtain ⟨k, hk, hresult⟩ := exceptMap_eq_ok_iff.1 h
    obtain rfl : k = body.length := (Prod.mk.inj hresult).2
    obtain ⟨tail, rest, hparts, hlength, htail⟩ := exists_of_literalAfterQuote hk
    obtain ⟨rfl, -⟩ := List.append_inj hparts hlength.symm
    exact ⟨0, body, rfl, htail⟩
  · obtain ⟨signs, quoted, hparts, hsigns, hquoted⟩ := exists_span (· == '#') (body ++ behind)
    have hreplicate : signs = List.replicate signs.length '#' :=
      List.eq_replicate_iff.2 ⟨rfl, fun c hc => eq_of_beq (hsigns c hc)⟩
    have hhash : measureHash start (signs ++ quoted) = .ok (.token .string, body.length) := hparts ▸ h
    cases hquote : startsWith ['"'] quoted with
    | false =>
        rw [measureHash, takeWhile_span hsigns hquoted] at hhash
        simp only [Nat.add_sub_cancel, List.drop_left, hquote, Bool.false_eq_true, if_false] at hhash
        split at hhash
        all_goals cases hhash
    | true =>
        obtain ⟨literal, rfl⟩ := exists_of_startsWith hquote
        rw [hreplicate, List.singleton_append, measureHash_quote] at hhash
        obtain ⟨k, hk, hresult⟩ := exceptMap_eq_ok_iff.1 hhash
        obtain ⟨tail, rest, rfl, rfl, htail⟩ := exists_of_literalAfterQuote hk
        have hbody : body ++ behind = (signs ++ '"' :: tail) ++ rest := by rw [hparts]; simp
        obtain ⟨rfl, -⟩ := List.append_inj hbody (by rw [← (Prod.mk.inj hresult).2]; simp; omega)
        refine ⟨signs.length + 1, tail, ?_, htail⟩
        rw [List.replicate_succ, ← hreplicate]
        rfl

/-- Some hash signs and a quote begin a literal. -/
theorem measure_quote (hashes start : Nat) (cs : List Char) :
    ∃ c behind, List.replicate hashes '#' ++ '"' :: cs = c :: behind ∧ isLayout c = false ∧
      measure start c behind = (literalAfterQuote hashes start cs).map fun n => (.token .string, hashes + n) := by
  cases hashes with
  | zero =>
      refine ⟨'"', cs, rfl, rfl, ?_⟩
      simp only [Nat.zero_add]
      rfl
  | succ hashes => exact ⟨'#', List.replicate hashes '#' ++ '"' :: cs, rfl, rfl, measureHash_quote hashes start cs⟩

/-- A literal of one line begins with one quote, and its tail behind it. -/
theorem literalAfterQuote_single {hashes : Nat} (hsingle : ¬['"', '"'] <+: cs) (start : Nat) :
    literalAfterQuote hashes start cs = literalTail ⟨false, hashes⟩ start (start + hashes + 1) cs := by
  have hquote : Delimiter.atQuote hashes cs = ⟨false, hashes⟩ := by
    rw [Delimiter.atQuote, startsWith, Bool.eq_false_iff.2 fun h => hsingle (List.isPrefixOf_iff_prefix.1 h)]
  rw [literalAfterQuote, hquote]
  change (literalTail ⟨false, hashes⟩ start (start + hashes + 1) cs).map (· + 0) = _
  cases literalTail ⟨false, hashes⟩ start (start + hashes + 1) cs <;> rfl

/-! ### Literals of one line -/

/-- Nothing comes out of a text at whose beginning a literal of one line breaks off. -/
theorem PlainRun.scan_eq_error {hashes : Nat} (h : PlainRun ⟨false, hashes⟩ cs rest)
    (hrest : BreaksOff ⟨false, hashes⟩ rest) (hsingle : ¬['"', '"'] <+: cs) (offset : Nat) (gap : String) :
    scan offset gap (List.replicate hashes '#' ++ '"' :: cs) = .error (.unterminatedString offset) := by
  obtain ⟨c, behind, hparts, hlayout, hmeasure⟩ := measure_quote hashes offset cs
  rw [literalAfterQuote_single hsingle, h.unterminated hrest] at hmeasure
  rw [hparts, scan, if_neg (by simp [hlayout]), hmeasure]
  rfl

/-- A literal of one line that is closed is the first lexeme of its text. -/
theorem PlainRun.scan_eq {hashes : Nat} {body : List Char}
    (h : PlainRun ⟨false, hashes⟩ (body ++ '"' :: (List.replicate hashes '#' ++ behind))
      ('"' :: (List.replicate hashes '#' ++ behind)))
    (hsingle : ¬['"', '"'] <+: body ++ '"' :: (List.replicate hashes '#' ++ behind)) (offset : Nat) (gap : String) :
    let literal := List.replicate hashes '#' ++ '"' :: (body ++ '"' :: List.replicate hashes '#')
    scan offset gap (literal ++ behind) = (scan (offset + byteLength literal) "" behind).map
      (⟨.token .string, gap, offset, String.ofList literal⟩ :: ·) := by
  intro literal
  obtain ⟨body', hbody, htail⟩ := PlainRun.exists_body (d := ⟨false, hashes⟩) h offset (offset + hashes + 1)
  rw [List.append_assoc] at hbody
  obtain rfl : body = body' := List.append_cancel_right hbody
  obtain ⟨c, rest, hparts, hlayout, hmeasure⟩ :=
    measure_quote hashes offset (body ++ '"' :: (List.replicate hashes '#' ++ behind))
  rw [literalAfterQuote_single hsingle, htail] at hmeasure
  have hwhole : literal ++ behind = c :: rest := by
    rw [← hparts]
    simp [literal]
  have hlength : literal.length = hashes + (body ++ '"' :: List.replicate hashes '#').length + 1 := by
    simp [literal]
    omega
  have htake := congrArg (List.take literal.length) hwhole
  have hdrop := congrArg (List.drop literal.length) hwhole
  rw [List.take_left, hlength, List.take_succ_cons] at htake
  rw [List.drop_left, hlength, List.drop_succ_cons] at hdrop
  have hresult : measure offset c rest =
      .ok (.token .string, hashes + (body ++ '"' :: List.replicate hashes '#').length) := hmeasure
  rw [hwhole, scan, if_neg (by simp [hlayout]), hresult]
  simp only [← htake, ← hdrop, utf8ByteSize_ofList]
  cases scan (offset + byteLength literal) "" behind <;> rfl

/-- Where an interpolation begins in a text, an escape stands with a parenthesis behind it. -/
theorem Interpolates.isInfix (h : Interpolates d cs) : '\\' :: (d.hashSigns ++ ['(']) <:+: cs := by
  obtain ⟨inside, hrun⟩ := h
  obtain ⟨front, -, rfl, -⟩ := hrun.literalTail_eq 0 0
  exact ⟨front, inside, by simp⟩

/-- A literal is what its opening quote, a part without interpolations and its closing delimiter make of it. -/
theorem plainRun_of_literalAfterQuote {hashes : Nat} (h : literalAfterQuote hashes start tail = .ok tail.length)
    (hsingle : ¬['"', '"'] <+: tail) (hplain : ¬Interpolates ⟨false, hashes⟩ tail) :
    ∃ body, tail = body ++ '"' :: List.replicate hashes '#' ∧
      PlainRun ⟨false, hashes⟩ tail ('"' :: List.replicate hashes '#') := by
  rw [literalAfterQuote_single hsingle] at h
  rcases exists_plainRun ⟨false, hashes⟩ tail with hinterpolates | ⟨rest, hrun, hoff | ⟨behind, rfl⟩⟩
  · exact absurd hinterpolates hplain
  · cases (hrun.unterminated hoff start (start + hashes + 1)).symm.trans h
  · obtain ⟨body, hparts, htail⟩ := hrun.exists_body start (start + hashes + 1)
    have hlength := congrArg List.length hparts
    rw [Except.ok.inj (h.symm.trans htail)] at hlength
    simp only [List.length_append] at hlength
    obtain rfl : behind = [] := List.length_eq_zero_iff.1 (by omega)
    rw [List.append_nil] at hparts hrun
    exact ⟨body, hparts, hrun⟩

/-- A string lexeme is some hash signs, a quote and a tail. If it does not open with three quotes and no interpolation
begins in it, each of its newlines stands behind the backslash and the hash signs of an escape. -/
theorem escapes_of_newline {source : String} {lexemes : List Lexeme} {x : Lexeme} (h : ofSource source = .ok lexemes)
    (hx : x ∈ lexemes) (hkind : x.kind = .token .string) :
    ∃ hashes tail, x.text = String.ofList (List.replicate hashes '#' ++ '"' :: tail) ∧
      (¬['"', '"'] <+: tail → ¬Interpolates ⟨false, hashes⟩ tail →
        ∀ front back, tail = front ++ '\n' :: back → '\\' :: List.replicate hashes '#' <:+ front) := by
  obtain ⟨front, c, body, back, -, -, htext, hmeasure⟩ := exists_measured h hx
  rw [hkind] at hmeasure
  obtain ⟨hashes, tail, hparts, hliteral⟩ := exists_of_measure_string hmeasure
  refine ⟨hashes, tail, by rw [htext, hparts], fun hsingle hplain before behind hnewline => ?_⟩
  obtain ⟨inside, hinside, hrun⟩ := plainRun_of_literalAfterQuote hliteral hsingle hplain
  rcases Shading.append_cons_eq_append (hnewline.symm.trans hinside) with ⟨between, -, hclosing⟩ | ⟨later, hlater⟩
  · have hmem : '\n' ∈ '"' :: List.replicate hashes '#' := hclosing ▸ by simp
    simp at hmem
  · rw [hinside, hlater, List.append_assoc, List.cons_append] at hrun
    exact hrun.isSuffix_of_newline rfl

/-- A newline that is escaped does not end a literal of one line. -/
theorem ofSource_escapedNewline :
    let tail := ['a', '\\', '\n', 'b', '"']
    ofSource "\"a\\\nb\"" = .ok [⟨.token .string, "", 0, String.ofList ('"' :: tail)⟩] ∧
      ¬['"', '"'] <+: tail ∧ ¬Interpolates ⟨false, 0⟩ tail := by
  intro tail
  have hsingle : ¬['"', '"'] <+: tail := by decide
  have hrun : PlainRun ⟨false, 0⟩ (['a', '\\', '\n', 'b'] ++ ['"']) ['"'] :=
    .other (by decide) (by decide) (by decide)
      (.escape (by decide) (.other (by decide) (by decide) (by decide) (.empty _)))
  refine ⟨?_, hsingle, fun h => absurd h.isInfix (by decide)⟩
  have hscan : scan 0 "" ('"' :: tail) =
      (scan 6 "" []).map (⟨.token .string, "", 0, String.ofList ('"' :: tail)⟩ :: ·) := hrun.scan_eq hsingle 0 ""
  rw [scan] at hscan
  exact hscan

/-! ### Raw quotes -/

/-- A text for raw quotes with so many hash signs: it has no newline in it, and nowhere a quote or a backslash with
all the hash signs behind it. -/
structure IsRaw (hashes : Nat) (text : List Char) : Prop where
  line : '\n' ∉ text
  quotes : ¬('"' :: List.replicate hashes '#') <:+: text
  escapes : ¬('\\' :: List.replicate hashes '#') <:+: text

/-- The text between quotes, with hash signs around them. -/
def rawQuoted (hashes : Nat) (text : String) : String :=
  String.ofList (List.replicate hashes '#' ++ '"' :: (text.toList ++ '"' :: List.replicate hashes '#'))

namespace IsRaw

variable {hashes : Nat} {text : List Char}

theorem of_cons (h : IsRaw hashes (c :: text)) : IsRaw hashes text :=
  ⟨fun hmem => h.line (List.mem_cons_of_mem c hmem), fun hmem => h.quotes (List.infix_cons hmem),
    fun hmem => h.escapes (List.infix_cons hmem)⟩

/-- The hash signs of a delimiter are not found in the text behind its first character, whatever is behind its end. -/
theorem not_startsWith (h : ¬c :: List.replicate hashes '#' <:+: c :: text) (behind : List Char) :
    ¬startsWith (List.replicate hashes '#') (text ++ '"' :: behind) = true := by
  intro hstarts
  have hsigns := prefix_of_prefix_append_cons (by simp) (List.isPrefixOf_iff_prefix.1 hstarts)
  exact h (List.prefix_cons_inj c |>.2 hsigns).isInfix

/-- A raw text is a part of a literal, and its quote is the first one to close it. -/
theorem plainRun (h : IsRaw hashes text) (behind : List Char) :
    PlainRun ⟨false, hashes⟩ (text ++ '"' :: behind) ('"' :: behind) := by
  induction text with
  | nil => exact .empty _
  | cons c cs ih =>
      refine .other ?line ?escapes ?closes (ih h.of_cons)
      case line =>
        have hc : c ≠ '\n' := fun hc => h.line (hc ▸ List.mem_cons_self)
        simp [hc]
      case escapes =>
        rw [Bool.and_eq_true, beq_iff_eq]
        rintro ⟨rfl, hstarts⟩
        exact not_startsWith h.escapes behind hstarts
      case closes =>
        intro hstarts
        obtain ⟨rfl, hsigns⟩ := List.cons_prefix_cons.1 (List.isPrefixOf_iff_prefix.1 hstarts)
        exact not_startsWith h.quotes behind (List.isPrefixOf_iff_prefix.2 hsigns)

end IsRaw

/-- Raw quotes are undone: a text in them is the first lexeme, a string, whatever stands behind, and the lexemes of
what stands behind follow. -/
theorem ofSource_rawQuoted {hashes : Nat} {text : String} (hhashes : 1 ≤ hashes) (htext : IsRaw hashes text.toList)
    (hbegins : text.toList.head? ≠ some '"') (rest : String) :
    let quoted := rawQuoted hashes text
    ofSource (quoted ++ rest) =
        (scan quoted.utf8ByteSize "" rest.toList).map (⟨.token .string, "", 0, quoted⟩ :: ·) ∧
      ofSource quoted = .ok [⟨.token .string, "", 0, quoted⟩] := by
  intro quoted
  have hsingle : ∀ behind, ¬['"', '"'] <+: text.toList ++ '"' :: (List.replicate hashes '#' ++ behind) := by
    intro behind
    cases hparts : text.toList with
    | nil =>
        obtain ⟨k, rfl⟩ : ∃ k, hashes = k + 1 := ⟨hashes - 1, by omega⟩
        simp [List.replicate_succ]
    | cons c cs =>
        have hc : c ≠ '"' := fun hc => hbegins (by rw [hparts, hc]; rfl)
        simp [hc.symm]
  have hscan : ∀ rest : String, ofSource (quoted ++ rest) =
      (scan quoted.utf8ByteSize "" rest.toList).map (⟨.token .string, "", 0, quoted⟩ :: ·) := by
    intro rest
    have hstop : quoted.utf8ByteSize = 0 + byteLength quoted.toList := by rw [byteLength_toList, Nat.zero_add]
    have hliteral : quoted.toList =
        List.replicate hashes '#' ++ '"' :: (text.toList ++ '"' :: List.replicate hashes '#') := String.toList_ofList
    rw [ofSource, String.toList_append, hstop, hliteral]
    exact (htext.plainRun _).scan_eq (hsingle rest.toList) 0 ""
  have halone := hscan ""
  rw [String.append_empty, String.toList_empty, scan] at halone
  exact ⟨hscan rest, halone⟩

/-- A quote and a backslash stand in the text with one hash sign behind them, a backslash at its end, and what follows
is a literal with one hash sign and without an end. -/
theorem ofSource_rawQuoted_hashes :
    let quoted := rawQuoted 2 "a\"#é\\#\\"
    quoted.toList = ['#', '#', '"', 'a', '"', '#', 'é', '\\', '#', '\\', '"', '#', '#'] ∧
      ofSource quoted = .ok [⟨.token .string, "", 0, quoted⟩] ∧
      ofSource (quoted ++ "#\"b") = .error (.unterminatedString 14) := by
  intro quoted
  have hquoted : quoted.toList = ['#', '#', '"', 'a', '"', '#', 'é', '\\', '#', '\\', '"', '#', '#'] :=
    String.toList_ofList
  have hstop : quoted.utf8ByteSize = 14 := by
    rw [← byteLength_toList, hquoted]
    decide
  have hopen : scan 14 "" ['#', '"', 'b'] = .error (.unterminatedString 14) :=
    PlainRun.scan_eq_error (.other (by decide) (by decide) (by decide) (.empty _) : PlainRun ⟨false, 1⟩ ['b'] [])
      .ending (by decide) 14 ""
  have htext : "a\"#é\\#\\".toList = ['a', '"', '#', 'é', '\\', '#', '\\'] := rfl
  have hraw : IsRaw 2 "a\"#é\\#\\".toList := by
    rw [htext]
    exact ⟨by decide, by decide, by decide⟩
  obtain ⟨hscan, halone⟩ := ofSource_rawQuoted (by decide) hraw (by rw [htext]; decide) "#\"b"
  refine ⟨hquoted, halone, hscan.trans ?_⟩
  change (scan quoted.utf8ByteSize "" ['#', '"', 'b']).map _ = _
  rw [hstop, hopen]
  rfl

end SourceLint.Lexeme
