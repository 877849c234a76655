import SourceLint.Proofs.Bytes.Literals
import SourceLint.Proofs.Syntax.LexemeOrder

/-!
# Texts cut byte by byte

A text that is read byte by byte is cut into the lexemes of its characters: the kinds are the same, and
each lexeme takes the bytes of its characters. Every round of this reading takes at least one byte.
-/

namespace SourceLint.Lexeme

variable {c : Char} {cs : List Char}

/-! ### Lexemes -/

/-- Like `InBytes`, for a measurement that finds a kind as well; the kinds are the same. -/
def KindInBytes (cs : List Char) (inChars inBytes : Except SyntaxError (LexemeKind × Nat)) : Prop :=
  inBytes.toOption = inChars.toOption.map fun r => (r.1, byteLength (cs.take r.2))

/-- The kind is known when a measurement goes on behind a common front. -/
theorem InBytes.kind {inChars inBytes : Except SyntaxError Nat} (h : InBytes cs inChars inBytes)
    (kind : LexemeKind) (front : List Char) {total total' : Nat → Nat}
    (htotal : ∀ n, total n = n + front.length) (htotal' : ∀ n, total' n = n + byteLength front) :
    KindInBytes (front ++ cs) (inChars.map fun n => (kind, total n))
      (inBytes.map fun n => (kind, total' n)) := by
  rw [InBytes] at h
  rw [KindInBytes, toOption_map, toOption_map, h, Option.map_map, Option.map_map]
  congr 1
  funext n
  simp only [Function.comp_apply, htotal, htotal', byteLength_take_append]

namespace KindInBytes

theorem error (cs : List Char) (e e' : SyntaxError) : KindInBytes cs (.error e) (.error e') := rfl

theorem ok {kind : LexemeKind} {n n' : Nat} (h : n' = byteLength (cs.take n)) :
    KindInBytes cs (.ok (kind, n)) (.ok (kind, n')) := by
  rw [h]
  rfl

/-- Measurements that depend on one test are compared case by case. -/
theorem ite {p : Prop} [Decidable p] {r s r' s' : Except SyntaxError (LexemeKind × Nat)}
    (hpos : p → KindInBytes cs r r') (hneg : ¬p → KindInBytes cs s s') :
    KindInBytes cs (if p then r else s) (if p then r' else s') := by
  by_cases hp : p
  · rw [if_pos hp, if_pos hp]
    exact hpos hp
  · rw [if_neg hp, if_neg hp]
    exact hneg hp

end KindInBytes

theorem literalAfterQuote_bytes (hashes start start' : Nat) (cs : List Char) :
    InBytes cs (literalAfterQuote hashes start cs) (literalAfterQuote hashes start' (bytes cs)) := by
  rw [literalAfterQuote, literalAfterQuote, atQuote_bytes]
  obtain ⟨rest, hrest⟩ := Delimiter.exists_of_atQuote hashes cs
  generalize Delimiter.atQuote hashes cs = d at *
  subst hrest
  rw [bytes_ascii (isHigh_quotes d), d.drop_furtherQuotes, d.drop_furtherQuotes]
  have happend := ((tailsInBytes rest).1 d start start' (start + hashes + 1 + d.furtherQuotes)
    (start' + hashes + 1 + d.furtherQuotes)).append d.quotes
  rw [byteLength_ascii (isHigh_quotes d), d.length_quotes] at happend
  exact happend

theorem mem_of_mem_bytes {d : Char} (hd : ¬IsHigh d) (h : d ∈ bytes cs) : d ∈ cs := by
  induction cs with
  | nil => cases h
  | cons c cs ih =>
      by_cases hc : IsHigh c
      · obtain ⟨b, high, hbytes, -, hb, hhigh⟩ := exists_bytes_cons hc
        rw [hbytes, List.mem_cons, List.mem_append] at h
        rcases h with rfl | h | h
        · exact absurd hb hd
        · exact absurd (hhigh d h) hd
        · exact List.mem_cons_of_mem _ (ih h)
      · rw [bytes_cons_ascii hc, List.mem_cons] at h
        exact List.mem_cons.2 (h.imp_right ih)

theorem hash_high (c d : Char) (hc : IsHigh c) (hd : IsHigh d) : (c == '#') = (d == '#') := by
  rw [beq_false_of_ne (ne_of_isHigh hc (by decide)), beq_false_of_ne (ne_of_isHigh hd (by decide))]

theorem wordStart_high (c d : Char) (hc : IsHigh c) (hd : IsHigh d) : isWordStart c = isWordStart d := by
  rw [isWordStart_of_isHigh hc, isWordStart_of_isHigh hd]

theorem measureHash_bytes (start start' : Nat) (cs : List Char) :
    KindInBytes cs (measureHash start cs) (measureHash start' (bytes cs)) := by
  obtain ⟨run, rest, rfl, hrun, hrest⟩ := exists_span (· == '#') cs
  have hascii : ∀ d ∈ run, ¬IsHigh d := by
    intro d hd
    rw [eq_of_beq (hrun d hd)]
    decide
  have hspan := takeWhile_span hrun hrest
  have hspan' : (run ++ bytes rest).takeWhile (· == '#') = run := by
    rw [← bytes_ascii hascii, takeWhile_bytes hash_high, hspan, ← List.append_nil run,
      bytes_ascii hascii, bytes_nil]
  have hhead := head?_bytes wordStart_high (run ++ rest)
  have hword := wordTail_bytes (run ++ rest)
  rw [bytes_ascii hascii] at hhead hword ⊢
  rw [measureHash, measureHash, hspan, hspan', hhead, hword]
  simp only [Nat.add_sub_cancel, List.drop_left]
  rw [startsWith_bytes (ascii_of_any (by decide))]
  split
  · rename_i hquote
    obtain ⟨literal, rfl⟩ := exists_of_startsWith hquote
    have hquote : ∀ d ∈ ['"'], ¬IsHigh d := ascii_of_any (by decide)
    have hfront : ∀ d ∈ run ++ ['"'], ¬IsHigh d := by
      intro d hd
      rcases List.mem_append.1 hd with hd | hd
      · exact hascii d hd
      · exact hquote d hd
    have hlength : (run ++ ['"']).length = run.length + 1 := by simp
    rw [bytes_ascii hquote, ← List.append_assoc]
    apply (literalAfterQuote_bytes (run.length + 1) start start' literal).kind
    · intro n
      rw [hlength, Nat.add_comm]
    · intro n
      rw [byteLength_ascii hfront, hlength, Nat.add_comm]
  split
  · exact .ok rfl
  · exact .ok rfl

theorem measureSlash_bytes (start start' : Nat) (cs : List Char) :
    KindInBytes cs (measureSlash start cs) (measureSlash start' (bytes cs)) := by
  rw [measureSlash, measureSlash, startsWith_bytes (ascii_of_any (by decide)),
    startsWith_bytes (ascii_of_any (by decide))]
  split
  · apply KindInBytes.ok
    apply length_takeWhile_bytes
    intro c d hc hd
    rw [bne, bne, beq_false_of_ne (ne_of_isHigh hc (by decide)),
      beq_false_of_ne (ne_of_isHigh hd (by decide))]
  split
  · rename_i hstar
    obtain ⟨rest, rfl⟩ := exists_of_startsWith hstar
    have hascii : ∀ d ∈ ['*'], ¬IsHigh d := ascii_of_any (by decide)
    have htail := blockCommentTail_bytes 0 rest
    rw [bytes_ascii hascii]
    simp only [List.singleton_append, List.drop_succ_cons, List.drop_zero]
    rw [htail]
    cases blockCommentTail 0 rest with
    | none => exact .error _ _ _
    | some n => exact .ok (byteLength_take_append ['*'] rest n).symm
  · exact .ok (operatorTail_bytes cs)

theorem measureBacktick_bytes (start start' : Nat) (cs : List Char) :
    KindInBytes cs (measureBacktick start cs) (measureBacktick start' (bytes cs)) := by
  have hascii : ¬IsHigh '\x60' := by decide
  obtain ⟨name, rest, rfl, hname, hrest⟩ := exists_span (· != '\x60') cs
  have hfresh : '\x60' ∉ name := fun hmem => by simpa using hname _ hmem
  have hfresh' : '\x60' ∉ bytes name := fun hmem => hfresh (mem_of_mem_bytes hascii hmem)
  cases rest with
  | nil =>
      have hnone : ∀ start cs, '\x60' ∉ cs →
          measureBacktick start cs = .error (.unexpected "\x60" start) := by
        intro start cs hcs
        have hfind : cs.findIdx? (· == '\x60') = none := by
          rw [List.findIdx?_eq_none_iff]
          intro c hc
          rw [beq_eq_false_iff_ne]
          rintro rfl
          exact hcs hc
        rw [measureBacktick, hfind]
      rw [List.append_nil, hnone start name hfresh, hnone start' (bytes name) hfresh']
      exact .error _ _ _
  | cons c rest =>
      obtain rfl : c = '\x60' := by simpa using hrest c rfl
      rw [bytes_append, bytes_cons_ascii hascii, measureBacktick_append hfresh,
        measureBacktick_append hfresh']
      apply KindInBytes.ok
      have htake := byteLength_take_append name ('\x60' :: rest) 1
      rw [Nat.add_comm 1] at htake
      rw [htake, length_bytes, Nat.add_comm]
      rfl

theorem wordKind_bytes (word : List Char) : wordKind (bytes word) = wordKind word := by
  have hkeywords : ∀ word, (∃ c ∈ word, IsHigh c) → wordKind word = .identifier := by
    rintro word ⟨c, hc, hhigh⟩
    have hnone : (keywords.any fun k => k.toList.any fun d => decide (IsHigh d)) = false := by
      decide +kernel
    have hall : ∀ k ∈ keywords, ∀ d ∈ k.toList, ¬IsHigh d := by simpa using hnone
    have hnot : keywords.contains (String.ofList word) = false := by
      rw [Bool.eq_false_iff, Ne, List.contains_iff_mem]
      intro hmem
      exact hall _ hmem c (by rwa [String.toList_ofList]) hhigh
    rw [wordKind, hnot, if_neg (by decide)]
  by_cases hword : ∃ c ∈ word, IsHigh c
  · rw [hkeywords word hword]
    obtain ⟨c, hc, hhigh⟩ := hword
    obtain ⟨front, back, rfl⟩ := List.append_of_mem hc
    obtain ⟨b, high, hbytes, -, hb, -⟩ := exists_bytes_cons hhigh
    refine hkeywords _ ⟨b, ?_, hb⟩
    rw [bytes_append, hbytes]
    simp
  · have hascii : ∀ c ∈ word, ¬IsHigh c := fun c hc hhigh => hword ⟨c, hc, hhigh⟩
    have hsame := bytes_ascii hascii []
    rw [List.append_nil, bytes_nil, List.append_nil] at hsame
    rw [hsame]

theorem take_wordTail (cs : List Char) : cs.take (wordTail cs) = cs.takeWhile isWordPart :=
  take_length_takeWhile isWordPart cs

/-- A character beyond ASCII begins a word. -/
theorem measure_high (hc : IsHigh c) (start : Nat) (cs : List Char) :
    measure start c cs =
      .ok (.token (wordKind (c :: cs.takeWhile isWordPart)), wordTail cs) := by
  have hne : ∀ d, ¬IsHigh d → (c == d) = false := fun d hd => beq_false_of_ne (ne_of_isHigh hc hd)
  rw [measure, hne '/' (by decide), hne '"' (by decide), hne '#' (by decide), hne '\x60' (by decide),
    hne '@' (by decide), hne '$' (by decide), hne '.' (by decide), isDigit_of_isHigh hc,
    isOperatorChar_of_isHigh hc, isWordStart_of_isHigh hc, take_wordTail]
  rfl

theorem measure_bytes_ascii (hc : ¬IsHigh c) (start start' : Nat) (cs : List Char) :
    KindInBytes cs (measure start c cs) (measure start' c (bytes cs)) := by
  rw [measure, measure]
  refine .ite (fun _ => measureSlash_bytes start start' cs) fun _ => ?_
  refine .ite (fun _ => ?_) fun _ => ?_
  · exact (literalAfterQuote_bytes 0 start start' cs).kind _ [] (fun _ => rfl) fun _ => rfl
  refine .ite (fun _ => measureHash_bytes start start' cs) fun _ => ?_
  refine .ite (fun _ => measureBacktick_bytes start start' cs) fun _ => ?_
  refine .ite (fun _ => ?_) fun _ => ?_
  · rw [head?_bytes wordStart_high]
    exact .ite (fun _ => .ok (wordTail_bytes cs)) fun _ => .ok rfl
  refine .ite (fun _ => .ok (wordTail_bytes cs)) fun _ => ?_
  refine .ite (fun _ => ?_) fun _ => ?_
  · rw [startsWith_bytes (ascii_of_any (by decide)), startsWith_bytes (ascii_of_any (by decide))]
    refine .ite (fun hdots => ?_) fun _ => .ok rfl
    rcases Bool.or_eq_true_iff.1 hdots with hdots | hdots
    · obtain ⟨rest, rfl⟩ := exists_of_startsWith hdots
      exact .ok rfl
    · obtain ⟨rest, rfl⟩ := exists_of_startsWith hdots
      exact .ok rfl
  refine .ite (fun _ => .ok (numberTail_bytes cs)) fun _ => ?_
  refine .ite (fun _ => .ok (operatorTail_bytes cs)) fun _ => ?_
  refine .ite (fun _ => ?_) fun _ => .ok rfl
  rw [take_wordTail, take_wordTail, takeWhile_bytes isWordPart_high, ← bytes_cons_ascii hc,
    wordKind_bytes]
  exact .ok (wordTail_bytes cs)

/-- The first byte of a lexeme is as good as its first character. -/
theorem measure_bytes (c : Char) (cs : List Char) :
    ∃ b rest, bytes (c :: cs) = b :: rest ∧ isLayout b = isLayout c ∧
      ∀ start start', (measure start' b rest).toOption = (measure start c cs).toOption.map fun r =>
        (r.1, byteLength (c :: cs.take r.2) - 1) := by
  by_cases hc : IsHigh c
  · obtain ⟨b, high, hbytes, hsize, hb, hhigh⟩ := exists_bytes_cons hc
    refine ⟨b, high ++ bytes cs, hbytes cs, by rw [isLayout_of_isHigh hb, isLayout_of_isHigh hc], ?_⟩
    intro start start'
    have hword : (high ++ bytes cs).takeWhile isWordPart = high ++ bytes (cs.takeWhile isWordPart) := by
      rw [List.takeWhile_append_of_pos fun d hd => isWordPart_of_isHigh (hhigh d hd),
        takeWhile_bytes isWordPart_high]
    rw [measure_high hb, measure_high hc, wordTail, hword, ← hbytes, wordKind_bytes]
    have hlength : (high ++ bytes (cs.takeWhile isWordPart)).length =
        byteLength (c :: cs.take (wordTail cs)) - 1 := by
      rw [List.length_append, length_bytes, byteLength_cons, take_wordTail, ← hsize, Nat.add_right_comm,
        Nat.add_sub_cancel]
    rw [hlength]
    rfl
  · refine ⟨c, bytes cs, bytes_cons_ascii hc cs, rfl, ?_⟩
    intro start start'
    have hmeasure := measure_bytes_ascii hc start start' cs
    rw [KindInBytes] at hmeasure
    rw [hmeasure]
    congr 1
    funext r
    rw [byteLength_cons, utf8Size_of_ascii hc, Nat.add_sub_cancel_left]

/-! ### Texts -/

/-- Cut the bytes of a text, from an offset on. Each round takes a blank or a lexeme, and nothing comes
out when the rounds run out. -/
def scanBytes : (rounds offset : Nat) → List Char →
    Option (Except SyntaxError (List (LexemeKind × Span)))
  | _, _, [] => some (.ok [])
  | 0, _, _ :: _ => none
  | rounds + 1, offset, b :: bs =>
    if isLayout b then scanBytes rounds (offset + 1) bs
    else
      match measure offset b bs with
      | .error e => some (.error e)
      | .ok (kind, n) =>
        (scanBytes rounds (offset + (n + 1)) (bs.drop n)).map fun later =>
          later.map ((kind, ⟨offset, n + 1⟩) :: ·)

/-- A round for a lexeme. -/
theorem scanBytes_lexeme {rounds offset n : Nat} {kind : LexemeKind} {c : Char} {cs : List Char}
    (hlayout : isLayout c = false) (hmeasure : measure offset c cs = .ok (kind, n)) :
    scanBytes (rounds + 1) offset (bytes (c :: cs)) =
      (scanBytes rounds (offset + byteLength (c :: cs.take n)) (bytes (cs.drop n))).map fun later =>
        later.map ((kind, ⟨offset, byteLength (c :: cs.take n)⟩) :: ·) := by
  obtain ⟨b, rest, hbytes, hb, hsame⟩ := measure_bytes c cs
  have hpos : byteLength (c :: cs.take n) - 1 + 1 = byteLength (c :: cs.take n) := by
    have := c.utf8Size_pos
    rw [byteLength_cons]
    omega
  have hdrop : rest.drop (byteLength (c :: cs.take n) - 1) = bytes (cs.drop n) := by
    have hwhole := drop_bytes (n + 1) (c :: cs)
    rw [List.take_succ_cons, ← hpos, hbytes] at hwhole
    simpa using hwhole
  have hfound := hsame offset offset
  rw [hmeasure] at hfound
  cases hmeasured : measure offset b rest with
  | error e =>
      rw [hmeasured] at hfound
      cases hfound
  | ok r =>
      rw [hmeasured] at hfound
      obtain rfl := Option.some.inj hfound
      rw [hbytes, scanBytes, hb, hlayout, if_neg (by decide), hmeasured]
      simp only [hpos, hdrop]

/-- When there are as many rounds as bytes, the bytes of a text are cut where its characters are. -/
theorem scanBytes_bytes {rounds : Nat} {gap : String} {offset : Nat} {cs : List Char}
    (hrounds : byteLength cs ≤ rounds) :
    ∃ result, scanBytes rounds offset (bytes cs) = some result ∧
      result.toOption = (scan offset gap cs).toOption.map fun lexemes =>
        lexemes.map fun x => (x.kind, x.span) := by
  have hround : ∀ {c : Char} {cs : List Char} {rounds : Nat}, byteLength (c :: cs) ≤ rounds →
      ∃ later, rounds = later + 1 := by
    intro c cs rounds hle
    have := c.utf8Size_pos
    rw [byteLength_cons] at hle
    exact Nat.exists_eq_add_of_le' (by omega)
  have hlater : ∀ {c : Char} {cs : List Char} {n later : Nat}, byteLength (c :: cs) ≤ later + 1 →
      byteLength (cs.drop n) ≤ later := by
    intro c cs n later hle
    have hsplit := congrArg byteLength (List.take_append_drop n cs)
    have := c.utf8Size_pos
    rw [byteLength_append] at hsplit
    rw [byteLength_cons] at hle
    omega
  fun_induction scan offset gap cs generalizing rounds with
  | case1 offset gap =>
      refine ⟨.ok [], ?_, rfl⟩
      rw [bytes_nil, scanBytes]
  | case2 offset gap c cs hlayout ih =>
      obtain ⟨later, rfl⟩ := hround hrounds
      have hc : ¬IsHigh c := by
        intro hhigh
        rw [isLayout_of_isHigh hhigh] at hlayout
        cases hlayout
      obtain ⟨result, hresult, hsame⟩ := ih (@hlater c cs 0 later hrounds)
      rw [utf8Size_of_ascii hc] at hresult
      refine ⟨result, ?_, hsame⟩
      rw [bytes_cons_ascii hc, scanBytes, if_pos hlayout, hresult]
  | case3 offset gap c cs hlayout e hmeasure =>
      obtain ⟨later, rfl⟩ := hround hrounds
      obtain ⟨b, rest, hbytes, hb, hsame⟩ := measure_bytes c cs
      have hfound := hsame offset offset
      rw [hmeasure] at hfound
      cases hmeasured : measure offset b rest with
      | ok r =>
          rw [hmeasured] at hfound
          cases hfound
      | error e' =>
          refine ⟨.error e', ?_, rfl⟩
          rw [hbytes, scanBytes, hb, if_neg hlayout, hmeasured]
  | case4 offset gap c cs hlayout kind n hmeasure text e hrest =>
      rename_i ih
      obtain ⟨later, rfl⟩ := hround hrounds
      obtain ⟨result, hresult, hsame⟩ := ih (hlater hrounds)
      have hsize : text.utf8ByteSize = byteLength (c :: cs.take n) := Lexeme.utf8ByteSize_ofList _
      rw [hrest] at hsame
      rw [hsize] at hresult
      refine ⟨_, by rw [scanBytes_lexeme (by simpa using hlayout) hmeasure, hresult]; rfl, ?_⟩
      rw [toOption_map, hsame]
      rfl
  | case5 offset gap c cs hlayout kind n hmeasure text lexemes hrest =>
      rename_i ih
      obtain ⟨later, rfl⟩ := hround hrounds
      obtain ⟨result, hresult, hsame⟩ := ih (hlater hrounds)
      have hsize : text.utf8ByteSize = byteLength (c :: cs.take n) := Lexeme.utf8ByteSize_ofList _
      rw [hrest] at hsame
      rw [hsize] at hresult
      refine ⟨_, by rw [scanBytes_lexeme (by simpa using hlayout) hmeasure, hresult]; rfl, ?_⟩
      rw [toOption_map, hsame, ← hsize]
      rfl

end SourceLint.Lexeme
