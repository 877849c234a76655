import SourceLint.Proofs.Syntax.Enclosed

/-!
# Texts read byte by byte

The characters that matter to how a text is cut are ASCII, and every other character goes on with a word
wherever it stands. The bytes of such a character do the same. So words, numbers, operators and comments
take as many bytes of a text as their characters have when the text is read byte by byte.

## Implementation notes

A byte is written as the character with its number, so the functions that measure lexemes in characters
also measure them in bytes.
-/

namespace SourceLint.Lexeme

/-- The bytes of a text, each of them as a character. -/
def bytes (cs : List Char) : List Char := (cs.flatMap String.utf8EncodeChar).map Char.ofUInt8

/-- The character is beyond ASCII, or it is a byte of one that is. -/
def IsHigh (c : Char) : Prop := 128 ≤ c.toNat

instance (c : Char) : Decidable (IsHigh c) := inferInstanceAs (Decidable (128 ≤ c.toNat))

/-- Whether a list holds nothing but ASCII can be computed. -/
theorem ascii_of_any {ds : List Char} (h : (ds.any fun d => decide (IsHigh d)) = false) :
    ∀ d ∈ ds, ¬IsHigh d := by
  simpa using h

theorem toNat_ofUInt8 (b : UInt8) : (Char.ofUInt8 b).toNat = b.toNat := rfl

@[simp] theorem bytes_nil : bytes [] = [] := rfl

theorem bytes_append (cs ds : List Char) : bytes (cs ++ ds) = bytes cs ++ bytes ds := by
  simp [bytes]

theorem length_bytes (cs : List Char) : (bytes cs).length = byteLength cs := by
  induction cs with
  | nil => rfl
  | cons c cs ih =>
      rw [← List.singleton_append, bytes_append, List.length_append, ih]
      simp [bytes]

theorem utf8Size_of_ascii {c : Char} (hc : ¬IsHigh c) : c.utf8Size = 1 := by
  rw [Char.utf8Size_eq_one_iff, UInt32.le_iff_toNat_le]
  exact Nat.le_of_lt_succ (Nat.lt_of_not_le hc)

/-- A character of ASCII is its only byte. -/
theorem bytes_cons_ascii {c : Char} (hc : ¬IsHigh c) (cs : List Char) :
    bytes (c :: cs) = c :: bytes cs := by
  have hbyte : Char.ofUInt8 c.val.toUInt8 = c := by
    apply Char.toNat_inj.1
    rw [toNat_ofUInt8, UInt32.toNat_toUInt8]
    have hlt : c.val.toNat < 128 := Nat.lt_of_not_le hc
    exact Nat.mod_eq_of_lt (by omega)
  rw [← List.singleton_append, bytes_append, bytes, List.flatMap_singleton,
    String.utf8EncodeChar_eq_singleton (utf8Size_of_ascii hc), List.map_singleton, hbyte,
    List.singleton_append]

/-- All bytes of another character are beyond ASCII. -/
theorem isHigh_of_mem_bytes {c : Char} (hc : IsHigh c) : ∀ d ∈ bytes [c], IsHigh d := by
  have hlt : ¬c.val.toNat ≤ 127 := Nat.not_le_of_lt hc
  have hbyte : ∀ n, 128 ≤ n → n < 256 → IsHigh (Char.ofUInt8 (UInt8.ofNat n)) := by
    intro n hle hlt
    rw [IsHigh, toNat_ofUInt8, UInt8.toNat_ofNat', Nat.mod_eq_of_lt hlt]
    exact hle
  intro d hd
  rw [bytes, List.flatMap_singleton, String.utf8EncodeChar, if_neg hlt] at hd
  split at hd
  · simp only [List.map_cons, List.map_nil, List.mem_cons, List.not_mem_nil, or_false] at hd
    rcases hd with rfl | rfl
    all_goals exact hbyte _ (by omega) (by omega)
  split at hd
  · simp only [List.map_cons, List.map_nil, List.mem_cons, List.not_mem_nil, or_false] at hd
    rcases hd with rfl | rfl | rfl
    all_goals exact hbyte _ (by omega) (by omega)
  · simp only [List.map_cons, List.map_nil, List.mem_cons, List.not_mem_nil, or_false] at hd
    rcases hd with rfl | rfl | rfl | rfl
    all_goals exact hbyte _ (by omega) (by omega)

theorem exists_bytes_cons {c : Char} (hc : IsHigh c) :
    ∃ b high, (∀ cs, bytes (c :: cs) = b :: (high ++ bytes cs)) ∧ high.length + 1 = c.utf8Size ∧
      IsHigh b ∧ ∀ d ∈ high, IsHigh d := by
  have hlength := length_bytes [c]
  have hhigh := isHigh_of_mem_bytes hc
  cases hbytes : bytes [c] with
  | nil =>
      rw [hbytes] at hlength
      have := c.utf8Size_pos
      simp at hlength
      omega
  | cons b high =>
      rw [hbytes] at hlength hhigh
      refine ⟨b, high, ?_, by simpa using hlength, hhigh b List.mem_cons_self,
        fun d hd => hhigh d (List.mem_cons_of_mem _ hd)⟩
      intro cs
      rw [← List.singleton_append, bytes_append, hbytes, List.cons_append]

theorem bytes_ascii {front : List Char} (hfront : ∀ d ∈ front, ¬IsHigh d) (cs : List Char) :
    bytes (front ++ cs) = front ++ bytes cs := by
  induction front with
  | nil => rfl
  | cons d front ih =>
      rw [List.cons_append, bytes_cons_ascii (hfront d List.mem_cons_self),
        ih fun e he => hfront e (List.mem_cons_of_mem _ he), List.cons_append]

theorem byteLength_ascii {front : List Char} (hfront : ∀ d ∈ front, ¬IsHigh d) :
    byteLength front = front.length := by
  rw [← length_bytes, ← List.append_nil front, bytes_ascii hfront, bytes_nil]

/-- The bytes behind some characters are those behind the bytes of these characters. -/
theorem drop_bytes (n : Nat) (cs : List Char) :
    (bytes cs).drop (byteLength (cs.take n)) = bytes (cs.drop n) := by
  conv => lhs; rw [← List.take_append_drop n cs, bytes_append]
  rw [← length_bytes, List.take_append_drop, List.drop_left]

theorem byteLength_take_append (front cs : List Char) (n : Nat) :
    byteLength ((front ++ cs).take (n + front.length)) = byteLength (cs.take n) + byteLength front := by
  rw [Nat.add_comm n, List.take_length_add_append, byteLength_append, Nat.add_comm]

/-! ### Tests -/

theorem ne_of_isHigh {c d : Char} (hc : IsHigh c) (hd : ¬IsHigh d) : c ≠ d := by
  rintro rfl
  exact hd hc

theorem contains_of_isHigh {c : Char} (hc : IsHigh c) {ds : List Char}
    (hds : ∀ d ∈ ds, ¬IsHigh d) : ds.contains c = false := by
  rw [Bool.eq_false_iff, Ne, List.contains_iff_mem]
  exact fun hmem => hds c hmem hc

theorem isDigit_of_isHigh {c : Char} (hc : IsHigh c) : c.isDigit = false := by
  have hle : 128 ≤ c.toNat := hc
  simp [Char.isDigit, UInt32.le_iff_toNat_le]
  omega

theorem isAlpha_of_isHigh {c : Char} (hc : IsHigh c) : c.isAlpha = false := by
  have hle : 128 ≤ c.toNat := hc
  have hletters : c.isAlpha =
      (decide (65 ≤ c.val ∧ c.val ≤ 90) || decide (97 ≤ c.val) && decide (c.val ≤ 122)) := rfl
  simp [hletters, UInt32.le_iff_toNat_le]
  omega

theorem isOperatorChar_of_isHigh {c : Char} (hc : IsHigh c) : isOperatorChar c = false :=
  contains_of_isHigh hc (ascii_of_any (by decide))

theorem isWordStart_of_isHigh {c : Char} (hc : IsHigh c) : isWordStart c = true := by
  have hle : 128 ≤ c.toNat := hc
  simp [isWordStart, hle]

theorem isWordPart_of_isHigh {c : Char} (hc : IsHigh c) : isWordPart c = true := by
  rw [isWordPart, isWordStart_of_isHigh hc, Bool.true_or]

theorem isLayout_of_isHigh {c : Char} (hc : IsHigh c) : isLayout c = false := by
  simp only [isLayout, Bool.or_eq_false_iff, beq_eq_false_iff_ne]
  exact ⟨⟨⟨ne_of_isHigh hc (by decide), ne_of_isHigh hc (by decide)⟩, ne_of_isHigh hc (by decide)⟩,
    ne_of_isHigh hc (by decide)⟩

/-- Whether a text begins with a pattern of ASCII shows in its bytes. -/
theorem startsWith_bytes {pattern : List Char} (hpattern : ∀ d ∈ pattern, ¬IsHigh d)
    (cs : List Char) : startsWith pattern (bytes cs) = startsWith pattern cs := by
  induction pattern generalizing cs with
  | nil => rfl
  | cons d pattern ih =>
      have hd := hpattern d List.mem_cons_self
      cases cs with
      | nil => rfl
      | cons c cs =>
          by_cases hc : IsHigh c
          · obtain ⟨b, high, hbytes, -, hb, -⟩ := exists_bytes_cons hc
            have hne := beq_false_of_ne (ne_of_isHigh hc hd).symm
            have hne' := beq_false_of_ne (ne_of_isHigh hb hd).symm
            simp [hbytes, startsWith, List.isPrefixOf, hne, hne']
          · have hrest := ih (fun e he => hpattern e (List.mem_cons_of_mem _ he)) cs
            rw [bytes_cons_ascii hc]
            simp only [startsWith, List.isPrefixOf] at hrest ⊢
            rw [hrest]

section Constant

variable {p : Char → Bool} (hp : ∀ c d, IsHigh c → IsHigh d → p c = p d)

include hp

/-- A test that does not tell characters beyond ASCII apart comes out the same for the first byte. -/
theorem head?_bytes (cs : List Char) :
    ((bytes cs).head?.map p).getD false = (cs.head?.map p).getD false := by
  cases cs with
  | nil => rfl
  | cons c cs =>
      by_cases hc : IsHigh c
      · obtain ⟨b, high, hbytes, -, hb, -⟩ := exists_bytes_cons hc
        simp [hbytes, hp b c hb hc]
      · rw [bytes_cons_ascii hc]
        rfl

/-- The first place where such a test fails is the same. -/
theorem takeWhile_bytes (cs : List Char) :
    (bytes cs).takeWhile p = bytes (cs.takeWhile p) := by
  induction cs with
  | nil => rfl
  | cons c cs ih =>
      by_cases hc : IsHigh c
      · obtain ⟨b, high, hbytes, -, hb, hhigh⟩ := exists_bytes_cons hc
        cases htest : p c with
        | true =>
            have hpass : ∀ d ∈ b :: high, p d = true := by
              intro d hd
              rcases List.mem_cons.1 hd with rfl | hd
              · rw [hp d c hb hc, htest]
              · rw [hp d c (hhigh d hd) hc, htest]
            have hfront : b :: (high ++ bytes cs) = (b :: high) ++ bytes cs := rfl
            rw [hbytes, List.takeWhile_cons_of_pos htest, hbytes, hfront,
              List.takeWhile_append_of_pos hpass, ih]
            rfl
        | false => simp [hbytes, hp b c hb hc, htest]
      · rw [bytes_cons_ascii hc, List.takeWhile_cons, List.takeWhile_cons, ih]
        split
        · rw [bytes_cons_ascii hc]
        · rfl

end Constant

/-! ### Words, numbers, operators and comments -/

theorem take_length_takeWhile (p : Char → Bool) (cs : List Char) :
    cs.take (cs.takeWhile p).length = cs.takeWhile p :=
  (List.prefix_iff_eq_take.1 (List.takeWhile_prefix p)).symm

theorem length_takeWhile_bytes {p : Char → Bool} (hp : ∀ c d, IsHigh c → IsHigh d → p c = p d)
    (cs : List Char) :
    ((bytes cs).takeWhile p).length = byteLength (cs.take (cs.takeWhile p).length) := by
  rw [takeWhile_bytes hp, length_bytes, take_length_takeWhile]

theorem isWordPart_high (c d : Char) (hc : IsHigh c) (hd : IsHigh d) : isWordPart c = isWordPart d := by
  rw [isWordPart_of_isHigh hc, isWordPart_of_isHigh hd]

theorem wordTail_bytes (cs : List Char) : wordTail (bytes cs) = byteLength (cs.take (wordTail cs)) :=
  length_takeWhile_bytes isWordPart_high cs

theorem numberTail_bytes (cs : List Char) :
    numberTail (bytes cs) = byteLength (cs.take (numberTail cs)) := by
  induction cs with
  | nil => rfl
  | cons c cs ih =>
      by_cases hc : IsHigh c
      · obtain ⟨b, high, hbytes, -, hb, -⟩ := exists_bytes_cons hc
        have hstop : ∀ d ds, IsHigh d → numberTail (d :: ds) = 0 := by
          intro d ds hd
          rw [numberTail]
          simp [Char.isAlphanum, isAlpha_of_isHigh hd, isDigit_of_isHigh hd,
            beq_false_of_ne (ne_of_isHigh hd (d := '_') (by decide)),
            beq_false_of_ne (ne_of_isHigh hd (d := '.') (by decide))]
        rw [hbytes, hstop b _ hb, hstop c _ hc]
        rfl
      · have hdigit : ((bytes cs).head?.map Char.isDigit).getD false =
            (cs.head?.map Char.isDigit).getD false :=
          head?_bytes (fun c d hc hd => by rw [isDigit_of_isHigh hc, isDigit_of_isHigh hd]) cs
        rw [bytes_cons_ascii hc, numberTail, numberTail, hdigit, ih]
        split
        · rw [List.take_succ_cons, byteLength_cons, utf8Size_of_ascii hc, Nat.add_comm]
        · rfl

theorem operatorTail_bytes (cs : List Char) :
    operatorTail (bytes cs) = byteLength (cs.take (operatorTail cs)) := by
  induction cs with
  | nil => rfl
  | cons c cs ih =>
      have hline : startsWith ['/', '/'] (bytes (c :: cs)) = startsWith ['/', '/'] (c :: cs) :=
        startsWith_bytes (ascii_of_any (by decide)) _
      have hblock : startsWith ['/', '*'] (bytes (c :: cs)) = startsWith ['/', '*'] (c :: cs) :=
        startsWith_bytes (ascii_of_any (by decide)) _
      by_cases hc : IsHigh c
      · obtain ⟨b, high, hbytes, -, hb, -⟩ := exists_bytes_cons hc
        rw [hbytes] at hline hblock ⊢
        rw [operatorTail, operatorTail, hline, hblock, isOperatorChar_of_isHigh hb,
          isOperatorChar_of_isHigh hc]
        simp
      · rw [bytes_cons_ascii hc] at hline hblock ⊢
        rw [operatorTail, operatorTail, hline, hblock, ih]
        split
        · rfl
        split
        · rw [List.take_succ_cons, byteLength_cons, utf8Size_of_ascii hc, Nat.add_comm]
        · rfl

/-- A byte of ASCII is a character of the text. -/
theorem exists_of_bytes_eq_cons {cs ds : List Char} {e : Char} (he : ¬IsHigh e)
    (h : bytes cs = e :: ds) : ∃ ds', cs = e :: ds' := by
  cases cs with
  | nil => cases h
  | cons c cs =>
      by_cases hc : IsHigh c
      · obtain ⟨b, high, hbytes, -, hb, -⟩ := exists_bytes_cons hc
        rw [hbytes] at h
        exact absurd (List.cons.inj h).1 (ne_of_isHigh hb he)
      · rw [bytes_cons_ascii hc] at h
        exact ⟨cs, by rw [(List.cons.inj h).1]⟩

/-- Bytes beyond ASCII neither open nor close a comment. -/
theorem blockCommentTail_high {high : List Char} (hhigh : ∀ d ∈ high, IsHigh d) (outer : Nat)
    (cs : List Char) :
    blockCommentTail outer (high ++ cs) = (blockCommentTail outer cs).map (· + high.length) := by
  induction high with
  | nil => simp
  | cons d high ih =>
      have hd := hhigh d List.mem_cons_self
      have hslash : d ≠ '/' := ne_of_isHigh hd (by decide)
      have hstar : d ≠ '*' := ne_of_isHigh hd (by decide)
      rw [List.cons_append, blockCommentTail, ih fun e he => hhigh e (List.mem_cons_of_mem _ he),
        Option.map_map]
      · rfl
      · exact fun ds hslash' => absurd hslash' hslash
      · exact fun ds _ hstar' => absurd hstar' hstar
      · exact fun more ds _ hstar' => absurd hstar' hstar

theorem blockCommentTail_bytes (outer : Nat) (cs : List Char) :
    blockCommentTail outer (bytes cs) =
      (blockCommentTail outer cs).map fun n => byteLength (cs.take n) := by
  have hslash : ¬IsHigh '/' := by decide
  have hstar : ¬IsHigh '*' := by decide
  fun_induction blockCommentTail outer cs with
  | case1 outer cs ih =>
      rw [bytes_cons_ascii hslash, bytes_cons_ascii hstar, blockCommentTail, ih, Option.map_map,
        Option.map_map]
      congr 1
      funext n
      exact (byteLength_take_append ['/', '*'] cs n).symm
  | case2 cs =>
      rw [bytes_cons_ascii hstar, bytes_cons_ascii hslash]
      rfl
  | case3 outer cs ih =>
      rw [bytes_cons_ascii hstar, bytes_cons_ascii hslash, blockCommentTail, ih, Option.map_map,
        Option.map_map]
      congr 1
      funext n
      exact (byteLength_take_append ['*', '/'] cs n).symm
  | case4 outer c cs hopen hend hclose ih =>
      by_cases hc : IsHigh c
      · rw [← List.singleton_append, bytes_append, blockCommentTail_high (isHigh_of_mem_bytes hc), ih,
          length_bytes, Option.map_map, Option.map_map]
        congr 1
        funext n
        exact (byteLength_take_append [c] cs n).symm
      · rw [bytes_cons_ascii hc, blockCommentTail, ih, Option.map_map, Option.map_map]
        · congr 1
          funext n
          have hsize : byteLength [c] = 1 := utf8Size_of_ascii hc
          exact Eq.trans (by rw [hsize]; rfl) (byteLength_take_append [c] cs n).symm
        · intro ds hc hds
          obtain ⟨ds', hds'⟩ := exists_of_bytes_eq_cons hstar hds
          exact hopen ds' hc hds'
        · intro ds houter hc hds
          obtain ⟨ds', hds'⟩ := exists_of_bytes_eq_cons hslash hds
          exact hend ds' houter hc hds'
        · intro more ds houter hc hds
          obtain ⟨ds', hds'⟩ := exists_of_bytes_eq_cons hslash hds
          exact hclose more ds' houter hc hds'
  | case5 => rfl

end SourceLint.Lexeme
