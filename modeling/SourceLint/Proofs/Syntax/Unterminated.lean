import SourceLint.Proofs.Syntax.Enclosed
import SourceLint.Proofs.Syntax.LexemeOrder
import SourceLint.Proofs.Text.Boundaries

/-!
# What has no end in a text without lexemes

Cutting a text into lexemes fails when a string literal, a block comment or a name between backticks has no end. The
error points at the place where it begins: for a literal inside an interpolation that is its own quote and not the
beginning of the literal around it.

## Implementation notes

The functions that measure carry offsets along. Each of them is the length of what stands before the text at hand,
so a text is split at every call, and the error is about the whole text and not about a part of it.
-/

namespace SourceLint

/-- A quote or a hash sign, with which string literals begin, stands in the text at the offset. -/
def BeginsLiteral (cs : List Char) (offset : Nat) : Prop :=
  StandsAt ['"'] offset cs ∨ StandsAt ['#'] offset cs

/-- The error is about a string literal, a block comment or a quoted name that begins in the text at its offset. -/
def SyntaxError.IsOpenEnded (cs : List Char) : SyntaxError → Prop
  | .unterminatedString offset => BeginsLiteral cs offset
  | .unterminatedComment offset => StandsAt ['/', '*'] offset cs
  | .unexpected found offset => found = "\x60" ∧ StandsAt ['\x60'] offset cs
  | .unclosed _ _ | .expected _ _ | .malformed _ => False

/-- What has no end is found in the characters of the text. -/
theorem SyntaxError.IsOpenEnded.isOfText {cs : List Char} {error : SyntaxError} (h : error.IsOpenEnded cs) :
    error.IsOfText := by
  cases error with
  | malformed fault => exact h
  | _ => trivial

namespace Lexeme

/-! ### String literals -/

/-- The rest is what remains of the text from the offset on. -/
def Remains (whole : List Char) (offset : Nat) (rest : List Char) : Prop :=
  ∃ front, whole = front ++ rest ∧ byteLength front = offset

namespace Remains

variable {whole rest : List Char} {offset later : Nat}

/-- Behind a piece the text goes on at an offset that is later by its bytes. -/
theorem behind (piece : List Char) (h : Remains whole offset (piece ++ rest))
    (hlater : offset + byteLength piece = later) : Remains whole later rest := by
  obtain ⟨front, hwhole, rfl⟩ := h
  exact ⟨front ++ piece, by rw [hwhole, List.append_assoc], by rw [byteLength_append, hlater]⟩

theorem drop (n : Nat) (h : Remains whole offset rest) :
    Remains whole (offset + byteLength (rest.take n)) (rest.drop n) :=
  behind (rest.take n) (by rwa [List.take_append_drop]) rfl

theorem standsAt (piece : List Char) (h : Remains whole offset (piece ++ rest)) :
    StandsAt piece offset whole := by
  obtain ⟨front, hwhole, hlength⟩ := h
  exact ⟨front, rest, by rw [hwhole, List.append_assoc], hlength⟩

end Remains

theorem byteLength_replicate (n : Nat) {c : Char} (hc : c.utf8Size = 1) :
    byteLength (List.replicate n c) = n := by
  induction n with
  | zero => rfl
  | succ n ih => rw [List.replicate_succ, byteLength_cons, ih, hc, Nat.add_comm]

/-- What remains of a literal or of an interpolation in the whole text has an end, or the error about it points to
the beginning of a literal. -/
def TailsOpen (whole rest : List Char) : Prop :=
  ∀ start offset, BeginsLiteral whole start → Remains whole offset rest →
    (∀ d, FailsWith (SyntaxError.IsOpenEnded whole) (literalTail d start offset rest)) ∧
    ∀ depth, FailsWith (SyntaxError.IsOpenEnded whole) (interpolationTail start offset depth rest)

section Steps

variable {whole cs : List Char} {start offset : Nat} {c : Char} (hstart : BeginsLiteral whole start)
  (ih : ∀ ds, ds.length ≤ cs.length → TailsOpen whole ds)

include hstart ih

/-- Behind a backslash with its hash signs. -/
theorem failsWith_literalTail_escape (d : Delimiter)
    (hrest : Remains whole offset ('\\' :: (d.hashSigns ++ c :: cs))) :
    FailsWith (SyntaxError.IsOpenEnded whole)
      (literalTail d start offset ('\\' :: (d.hashSigns ++ c :: cs))) := by
  have hsigns : byteLength d.hashSigns = d.hashes := byteLength_replicate _ rfl
  have hbehind : Remains whole (offset + 1 + d.hashes + c.utf8Size) cs := by
    refine Remains.behind ('\\' :: (d.hashSigns ++ [c])) (by simpa using hrest) ?_
    rw [byteLength_cons, byteLength_append, hsigns, byteLength_cons, byteLength_nil]
    have hbackslash : ('\\' : Char).utf8Size = 1 := rfl
    omega
  by_cases hparen : c = '('
  · subst hparen
    rw [literalTail_interpolation]
    split
    · rename_i e he
      exact .error (((ih cs (Nat.le_refl _)) _ _ hstart hbehind).2 0 e he)
    · rename_i n hn
      exact ((ih _ (List.drop_sublist n cs).length_le _ _ hstart (hbehind.drop n)).1 d).map _
  · rw [literalTail_escape hparen]
    exact ((ih cs (Nat.le_refl _) _ _ hstart hbehind).1 d).map _

theorem failsWith_literalTail (d : Delimiter) (hrest : Remains whole offset (c :: cs)) :
    FailsWith (SyntaxError.IsOpenEnded whole) (literalTail d start offset (c :: cs)) := by
  by_cases hnewline : (c == '\n' && !d.isMultiline) = true
  · rw [literalTail, if_pos hnewline]
    exact .error hstart
  by_cases hescape : (c == '\\' && startsWith d.hashSigns cs) = true
  · have hsigns := hescape
    simp only [Bool.and_eq_true, beq_iff_eq] at hsigns
    obtain ⟨rfl, hsigns⟩ := hsigns
    obtain ⟨escaped, rfl⟩ := exists_of_startsWith hsigns
    cases escaped with
    | nil =>
        rw [literalTail, if_neg hnewline, if_pos hescape]
        simp only [drop_hashSigns, List.drop_nil]
        rw [if_neg (by simp [startsWith]), literalTail]
        exact .error hstart
    | cons e es =>
        refine failsWith_literalTail_escape hstart (fun ds hds => ih ds ?_) d hrest
        rw [List.length_append, List.length_cons]
        omega
  by_cases hclosing : startsWith d.closing (c :: cs) = true
  · rw [literalTail, if_neg hnewline, if_neg hescape, if_pos hclosing]
    exact .ok _
  rw [literalTail_char hnewline hescape hclosing]
  exact ((ih cs (Nat.le_refl _) _ _ hstart (.behind [c] hrest rfl)).1 d).map _

/-- A literal in an interpolation begins at its own quote. -/
theorem failsWith_interpolationTail_quote (depth : Nat) (hrest : Remains whole offset ('"' :: cs)) :
    FailsWith (SyntaxError.IsOpenEnded whole) (interpolationTail start offset depth ('"' :: cs)) := by
  have hquote : BeginsLiteral whole offset := .inl (Remains.standsAt ['"'] hrest)
  have hbehind : Remains whole (offset + 1) cs := .behind ['"'] hrest rfl
  have hshort : ∀ n, (cs.drop n).length ≤ cs.length := fun n => (List.drop_sublist n cs).length_le
  rw [interpolationTail_quote]
  obtain ⟨behind, hquotes⟩ := Delimiter.exists_of_atQuote 0 cs
  generalize Delimiter.atQuote 0 cs = d at *
  have hopening := hbehind.drop d.furtherQuotes
  have hlength : byteLength (cs.take d.furtherQuotes) = d.furtherQuotes := by
    rw [hquotes, ← d.length_quotes, List.take_left, Delimiter.quotes, byteLength_replicate _ rfl,
      List.length_replicate]
  rw [hlength] at hopening
  split
  · rename_i e he
    exact .error ((ih _ (hshort _) _ _ hquote hopening).1 d e he)
  · exact ((ih _ (hshort _) _ _ hstart (hbehind.drop _)).2 depth).map _

theorem failsWith_interpolationTail (depth : Nat) (hrest : Remains whole offset (c :: cs)) :
    FailsWith (SyntaxError.IsOpenEnded whole) (interpolationTail start offset depth (c :: cs)) := by
  have hbehind := (ih cs (Nat.le_refl _) _ _ hstart (.behind [c] hrest rfl)).2
  by_cases hopen : c = '('
  · subst hopen
    rw [interpolationTail_open]
    exact (hbehind (depth + 1)).map _
  by_cases hclose : c = ')'
  · subst hclose
    cases depth with
    | zero =>
        rw [interpolationTail_end]
        exact .ok 1
    | succ depth =>
        rw [interpolationTail_close]
        exact (hbehind depth).map _
  by_cases hquote : c = '"'
  · subst hquote
    exact failsWith_interpolationTail_quote hstart ih depth hrest
  by_cases hnewline : c = '\n'
  · subst hnewline
    rw [interpolationTail.eq_def]
    exact .error hstart
  rw [interpolationTail_char (by simp [hopen, hclose, hquote, hnewline])]
  exact (hbehind depth).map _

end Steps

theorem tailsOpen (whole rest : List Char) : TailsOpen whole rest := by
  induction hlength : rest.length using Nat.strongRecOn generalizing rest with
  | ind length ih =>
      intro start offset hstart hrest
      cases rest with
      | nil =>
          constructor
          · intro d
            rw [literalTail]
            exact .error hstart
          · intro depth
            rw [interpolationTail]
            exact .error hstart
      | cons c cs =>
          rw [List.length_cons] at hlength
          have hshort : ∀ ds : List Char, ds.length ≤ cs.length → TailsOpen whole ds :=
            fun ds hds => ih ds.length (by omega) ds rfl
          exact ⟨fun d => failsWith_literalTail hstart hshort d hrest,
            fun depth => failsWith_interpolationTail hstart hshort depth hrest⟩

/-! ### Lexemes -/

section Measuring

variable {whole cs : List Char} {offset : Nat}

/-- A literal begins at its first hash sign, or at its quote when it has none. -/
theorem failsWith_literalAfterQuote {hashes : Nat} (hoffset : BeginsLiteral whole offset)
    (hrest : Remains whole (offset + hashes + 1) cs) :
    FailsWith (SyntaxError.IsOpenEnded whole) (literalAfterQuote hashes offset cs) := by
  obtain ⟨behind, hquotes⟩ := Delimiter.exists_of_atQuote hashes cs
  rw [literalAfterQuote]
  generalize Delimiter.atQuote hashes cs = d at *
  subst hquotes
  have hlength : byteLength d.quotes = d.furtherQuotes := byteLength_replicate _ rfl
  rw [d.drop_furtherQuotes]
  exact ((tailsOpen whole behind _ _ hoffset (.behind d.quotes hrest (by rw [hlength]))).1 d).map _

theorem failsWith_measureHash (hrest : Remains whole offset ('#' :: cs)) :
    FailsWith (SyntaxError.IsOpenEnded whole) (measureHash offset cs) := by
  have hoffset : BeginsLiteral whole offset := .inr (Remains.standsAt ['#'] hrest)
  obtain ⟨signs, quoted, rfl, hsigns, hquoted⟩ := exists_span (· == '#') cs
  have hreplicate : signs = List.replicate signs.length '#' :=
    List.eq_replicate_iff.2 ⟨rfl, fun c hc => eq_of_beq (hsigns c hc)⟩
  have hlength : byteLength signs = signs.length := by
    rw [hreplicate, byteLength_replicate _ rfl, List.length_replicate]
  rw [measureHash, takeWhile_span hsigns hquoted, Nat.add_sub_cancel, List.drop_left]
  refine .ite (fun hquote => ?_) fun _ => .ite (fun _ => .ok _) fun _ => .ok _
  obtain ⟨behind, rfl⟩ := exists_of_startsWith hquote
  refine (failsWith_literalAfterQuote hoffset ?_).map _
  refine .behind ('#' :: (signs ++ ['"'])) (by simpa using hrest) ?_
  rw [byteLength_cons, byteLength_append, hlength]
  have hsize : ('#' : Char).utf8Size = 1 ∧ byteLength ['"'] = 1 := ⟨rfl, rfl⟩
  omega

theorem failsWith_measureSlash (hrest : Remains whole offset ('/' :: cs)) :
    FailsWith (SyntaxError.IsOpenEnded whole) (measureSlash offset cs) := by
  rw [measureSlash]
  refine .ite (fun _ => .ok _) fun _ => .ite (fun hstar => ?_) fun _ => .ok _
  obtain ⟨behind, rfl⟩ := exists_of_startsWith hstar
  split
  · exact .ok _
  · exact .error (Remains.standsAt ['/', '*'] hrest)

theorem failsWith_measureBacktick (hrest : Remains whole offset ('\x60' :: cs)) :
    FailsWith (SyntaxError.IsOpenEnded whole) (measureBacktick offset cs) := by
  rw [measureBacktick]
  split
  · exact .ok _
  · exact .error ⟨rfl, Remains.standsAt ['\x60'] hrest⟩

theorem failsWith_measure {c : Char} (hrest : Remains whole offset (c :: cs)) :
    FailsWith (SyntaxError.IsOpenEnded whole) (measure offset c cs) := by
  rw [measure]
  refine .ite (fun hc => ?_) fun _ => .ite (fun hc => ?_) fun _ => .ite (fun hc => ?_) fun _ =>
    .ite (fun hc => ?_) fun _ => ?_
  · obtain rfl := eq_of_beq hc
    exact failsWith_measureSlash hrest
  · obtain rfl := eq_of_beq hc
    exact (failsWith_literalAfterQuote (.inl (Remains.standsAt ['"'] hrest)) (.behind ['"'] hrest rfl)).map _
  · obtain rfl := eq_of_beq hc
    exact failsWith_measureHash hrest
  · obtain rfl := eq_of_beq hc
    exact failsWith_measureBacktick hrest
  · -- nothing else can fail
    repeat' split
    all_goals exact .ok _

end Measuring

/-- Cutting a text fails where something in it begins that has no end. -/
theorem failsWith_scan {whole cs : List Char} {offset : Nat} (gap : String) (hrest : Remains whole offset cs) :
    FailsWith (SyntaxError.IsOpenEnded whole) (scan offset gap cs) := by
  fun_induction scan offset gap cs with
  | case1 => exact .ok _
  | case2 offset gap c cs hlayout ih => exact ih (.behind [c] hrest rfl)
  | case3 offset gap c cs hlayout e he => exact .error (failsWith_measure hrest e he)
  | case4 offset gap c cs hlayout kind n hmeasure text e he ih =>
      have hpiece : Remains whole offset ((c :: cs.take n) ++ cs.drop n) := by
        rwa [List.cons_append, List.take_append_drop]
      exact .error (ih (hpiece.behind _ (by rw [utf8ByteSize_ofList])) e he)
  | case5 => exact .ok _

theorem failsWith_ofSource (source : String) :
    FailsWith (SyntaxError.IsOpenEnded source.toList) (ofSource source) :=
  failsWith_scan "" ⟨[], rfl, rfl⟩

end Lexeme

end SourceLint
