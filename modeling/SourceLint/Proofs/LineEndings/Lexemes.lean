import Mathlib.Data.List.Forall2
import SourceLint.Proofs.Bytes.Scanning
import SourceLint.Proofs.Correction.Splicing
import SourceLint.Proofs.Grammar.Abreast.Alike
import SourceLint.Proofs.LineEndings.Literals
import SourceLint.Proofs.Syntax.Restarting

/-!
# Lexemes with carriage returns

A text with carriage returns is cut where it is cut without them: the lexemes have the same kinds and stand at the
same places, and the carriage returns of the newlines in a lexeme belong to it. A comment that ends with its line
takes the carriage return at the end of the line along. A text that has lexemes without carriage returns has none with
them only where a string literal has an escaped newline.

## Main results

* `Lexeme.ofSource_returned`: the lexemes of the two texts, one by one.
-/

namespace SourceLint

namespace Lexeme

variable {c : Char} {cs : List Char} {start start' : Nat}

/-! ### Measuring -/

theorem visible_withReturns (cs : List Char) : visible (withReturns cs) = visible cs := by
  induction cs with
  | nil => rfl
  | cons c cs ih =>
      by_cases hc : c = '\n'
      · subst hc
        rw [withReturns_newline, visible_of_isSeparator (by decide), visible_of_isSeparator (by decide)]
      · rw [withReturns_cons hc, visible_cons, visible_cons, ih]

theorem exists_of_withReturns_eq_cons {cs ds : List Char} {e : Char} (hnewline : e ≠ '\r')
    (h : withReturns cs = e :: ds) : ∃ ds', cs = e :: ds' := by
  cases cs with
  | nil => cases h
  | cons c cs =>
      by_cases hc : c = '\n'
      · subst hc
        exact absurd (List.cons.inj h).1.symm hnewline
      · rw [withReturns_cons hc] at h
        exact ⟨cs, by rw [(List.cons.inj h).1]⟩

theorem blockCommentTail_char (hslash : c ≠ '/') (hstar : c ≠ '*') (outer : Nat) (cs : List Char) :
    blockCommentTail outer (c :: cs) = (blockCommentTail outer cs).map (· + 1) := by
  rw [blockCommentTail]
  · exact fun ds h => absurd h hslash
  · exact fun ds _ h => absurd h hstar
  · exact fun more ds _ h => absurd h hstar

/-- The end of a comment is found in a text with carriage returns as it is without them. -/
theorem blockCommentTail_returns (outer : Nat) (cs : List Char) :
    blockCommentTail outer (withReturns cs) =
      (blockCommentTail outer cs).map fun n => (withReturns (cs.take n)).length := by
  fun_induction blockCommentTail outer cs with
  | case1 outer cs ih =>
      rw [withReturns_cons (by decide), withReturns_cons (by decide), blockCommentTail, ih, Option.map_map,
        Option.map_map]
      rfl
  | case2 cs =>
      rw [withReturns_cons (by decide), withReturns_cons (by decide)]
      rfl
  | case3 outer cs ih =>
      rw [withReturns_cons (by decide), withReturns_cons (by decide), blockCommentTail, ih, Option.map_map,
        Option.map_map]
      rfl
  | case4 outer c cs hopen hend hclose ih =>
      by_cases hc : c = '\n'
      · subst hc
        rw [withReturns_newline, blockCommentTail_char (by decide) (by decide),
          blockCommentTail_char (by decide) (by decide), ih, Option.map_map, Option.map_map, Option.map_map]
        rfl
      · have hlength : ∀ n, (withReturns ((c :: cs).take (n + 1))).length = (withReturns (cs.take n)).length + 1 := by
          intro n
          rw [List.take_succ_cons, withReturns_cons hc, List.length_cons]
        rw [withReturns_cons hc, blockCommentTail, ih, Option.map_map, Option.map_map]
        · congr 1
          funext n
          exact (hlength n).symm
        · intro ds hslash hds
          obtain ⟨ds', hds'⟩ := exists_of_withReturns_eq_cons (by decide) hds
          exact hopen ds' hslash hds'
        · intro ds houter hstar hds
          obtain ⟨ds', hds'⟩ := exists_of_withReturns_eq_cons (by decide) hds
          exact hend ds' houter hstar hds'
        · intro more ds houter hstar hds
          obtain ⟨ds', hds'⟩ := exists_of_withReturns_eq_cons (by decide) hds
          exact hclose more ds' houter hstar hds'
  | case5 => rfl

/-- How a lexeme that begins with the character `c` is measured in the text `cs` behind it, and how with carriage
returns: alike, also where it is a comment up to the end of its line, or else it is a string literal in which a
newline is escaped. -/
inductive MeasuredAlike (c : Char) (cs : List Char) :
    Except SyntaxError (LexemeKind × Nat) → Except SyntaxError (LexemeKind × Nat) → Prop
  | failed (e e' : SyntaxError) : MeasuredAlike c cs (.error e) (.error e')
  | found {kind : LexemeKind} {n n' : Nat} (hn : n' = (withReturns (cs.take n)).length)
      (hnewline : '\n' ∈ cs.take n → kind = .token .comment ∨
        (kind = .token .identifier ∨ kind = .token .string) ∧ isQuoteMark c = true) :
      MeasuredAlike c cs (.ok (kind, n)) (.ok (kind, n'))
  | line {n : Nat} {back : List Char} (hrest : cs.drop n = '\n' :: back) (hplain : '\n' ∉ cs.take n) :
      MeasuredAlike c cs (.ok (.token .comment, n)) (.ok (.token .comment, n + 1))
  | lost {n : Nat} (e' : SyntaxError) (hescape : EscapesNewline (cs.take n)) :
      MeasuredAlike c cs (.ok (.token .string, n)) (.error e')

/-- What ends at a separator is measured alike. -/
theorem SettledBySeparator.measuredAlike {measure : Nat → List Char → Except SyntaxError (LexemeKind × Nat)}
    {kind : LexemeKind} {n : Nat} (h : SettledBySeparator measure cs kind n)
    (start start' : Nat) : MeasuredAlike c cs (measure start cs) (measure start' (withReturns cs)) := by
  have hplain : '\n' ∉ cs.take n := fun hmem =>
    Bool.noConfusion (isSeparator_of_mem_take h.1 hmem)
  rw [h.2 start cs rfl, h.2 start' (withReturns cs) (visible_withReturns cs)]
  refine .found ?_ fun hmem => absurd hmem hplain
  rw [withReturns_eq_self hplain, List.length_take_of_le (Nat.le_trans h.1 (length_visible_le cs))]

/-- A string literal is measured behind its first characters, which begin as string literals do. -/
theorem InReturns.measuredAlike {plain inReturns : Except SyntaxError Nat} (h : InReturns cs plain inReturns)
    (hc : isQuoteMark c = true) (front : List Char) (hfront : '\n' ∉ front) {total : Nat → Nat}
    (htotal : ∀ n, total n = n + front.length) :
    MeasuredAlike c (front ++ cs) (plain.map fun n => (.token .string, total n))
      (inReturns.map fun n => (.token .string, total n)) := by
  cases plain with
  | error e =>
      rcases h with h | ⟨-, n, hn, -⟩
      · obtain ⟨e', rfl⟩ := exists_error_of_toOption h
        exact .failed e e'
      · cases hn
  | ok n =>
      rcases h with h | ⟨hnone, m, hm, hescape⟩
      · cases inReturns with
        | error e' => cases h
        | ok n' =>
            obtain rfl : n' = (withReturns (cs.take n)).length := Option.some.inj h
            refine .found ?_ fun _ => .inr ⟨.inr rfl, hc⟩
            rw [htotal, htotal, length_withReturns_take_append, withReturns_eq_self hfront]
      · obtain rfl := Except.ok.inj hm
        obtain ⟨e', rfl⟩ := exists_error_of_toOption hnone
        refine .lost e' ?_
        rw [htotal, List.take_append, List.take_of_length_le (Nat.le_add_left _ _), Nat.add_sub_cancel]
        simpa using hescape.append front []

/-- A comment up to the end of its line takes the carriage return there along. -/
theorem lineComment_returns (c : Char) (cs : List Char) :
    MeasuredAlike c cs (.ok (.token .comment, (cs.takeWhile (· != '\n')).length))
      (.ok (.token .comment, ((withReturns cs).takeWhile (· != '\n')).length)) := by
  obtain ⟨body, rest, rfl, hbody, hrest⟩ := exists_span (· != '\n') cs
  have hplain : '\n' ∉ body := fun hmem => by simpa using hbody '\n' hmem
  rw [takeWhile_span hbody hrest, withReturns_append, withReturns_eq_self hplain]
  cases rest with
  | nil =>
      rw [withReturns_nil, takeWhile_span hbody (by simp)]
      refine .found ?_ fun _ => .inl rfl
      rw [List.append_nil, List.take_length, withReturns_eq_self hplain]
  | cons d rest =>
      obtain rfl : d = '\n' := by simpa using hrest d rfl
      have hline : ∀ e ∈ body ++ ['\r'], (e != '\n') = true := by
        intro e he
        rcases List.mem_append.1 he with he | he
        · exact hbody e he
        · rw [List.mem_singleton.1 he]
          decide
      have hwhole : body ++ withReturns ('\n' :: rest) = body ++ ['\r'] ++ '\n' :: withReturns rest := by simp
      rw [hwhole, takeWhile_span hline (by simp), List.length_append, List.length_singleton]
      refine .line List.drop_left ?_
      rwa [List.take_left]

theorem measureSlash_returns (c : Char) (start start' : Nat) (cs : List Char) :
    MeasuredAlike c cs (measureSlash start cs) (measureSlash start' (withReturns cs)) := by
  by_cases hline : startsWith ['/'] cs = true
  · rw [measureSlash, measureSlash, startsWith_withReturns (by decide) (by decide), if_pos hline, if_pos hline]
    exact lineComment_returns c cs
  by_cases hblock : startsWith ['*'] cs = true
  · obtain ⟨rest, rfl⟩ := exists_of_startsWith hblock
    have htail := blockCommentTail_returns 0 rest
    rw [measureSlash, measureSlash, startsWith_withReturns (by decide) (by decide),
      startsWith_withReturns (by decide) (by decide), if_neg hline, if_neg hline, if_pos hblock, if_pos hblock,
      withReturns_append, withReturns_eq_self (by decide)]
    simp only [List.singleton_append, List.drop_succ_cons, List.drop_zero]
    rw [htail]
    cases blockCommentTail 0 rest with
    | none => exact .failed _ _
    | some n =>
        refine .found ?_ fun _ => .inl rfl
        exact (length_withReturns_take_append ['*'] rest n).symm
  · have hfound : measureSlash start cs = .ok (.punctuation, operatorTail cs) := by
      rw [measureSlash, if_neg hline, if_neg hblock]
    exact (measureSlash_settled hfound rfl).measuredAlike start start'

theorem measureHash_returns (start start' : Nat) (cs : List Char) :
    MeasuredAlike '#' cs (measureHash start cs) (measureHash start' (withReturns cs)) := by
  obtain ⟨run, rest, rfl, hrun, hrest⟩ := exists_span (· == '#') cs
  have hspan := takeWhile_span hrun hrest
  by_cases hquote : startsWith ['"'] rest = true
  · obtain ⟨literal, rfl⟩ := exists_of_startsWith hquote
    have hplain : '\n' ∉ run ++ ['"'] := by
      rw [List.mem_append, not_or]
      exact ⟨fun hmem => by simpa using hrun '\n' hmem, by decide⟩
    have hspan' : (run ++ '"' :: withReturns literal).takeWhile (· == '#') = run :=
      takeWhile_span hrun (by simp)
    have hsplit : run ++ '"' :: literal = run ++ ['"'] ++ literal := by simp
    have hsplit' : withReturns (run ++ '"' :: literal) = run ++ '"' :: withReturns literal := by
      rw [hsplit, withReturns_append, withReturns_eq_self hplain]
      simp
    have hquoted : ∀ ds, startsWith ['"'] ('"' :: ds) = true := fun ds => startsWith_self_append ['"'] ds
    rw [List.singleton_append] at hspan ⊢
    rw [measureHash, measureHash, hsplit', hspan, hspan']
    simp only [Nat.add_sub_cancel, List.drop_left, hquoted, if_true, List.drop_succ_cons, List.drop_zero]
    rw [hsplit]
    refine (literalAfterQuote_returns (run.length + 1) start start' literal).measuredAlike rfl (run ++ ['"']) hplain
      fun n => ?_
    rw [List.length_append, List.length_singleton, Nat.add_comm]
  · have hfound : ∃ kind n, measureHash start (run ++ rest) = .ok (kind, n) ∧ kind.shields = false := by
      rw [measureHash, hspan]
      simp only [Nat.add_sub_cancel, List.drop_left, if_neg hquote]
      split
      · exact ⟨_, _, rfl, rfl⟩
      · exact ⟨_, _, rfl, rfl⟩
    obtain ⟨kind, n, hfound, hkind⟩ := hfound
    exact (measureHash_settled hfound hkind).measuredAlike start start'

theorem measureBacktick_returns (start start' : Nat) (cs : List Char) :
    MeasuredAlike '\x60' cs (measureBacktick start cs) (measureBacktick start' (withReturns cs)) := by
  obtain ⟨name, rest, rfl, hname, hrest⟩ := exists_span (· != '\x60') cs
  have hfresh : '\x60' ∉ name := fun hmem => by simpa using hname _ hmem
  have hfresh' : '\x60' ∉ withReturns name := fun hmem => hfresh ((mem_withReturns_iff (by decide)).1 hmem)
  cases rest with
  | nil =>
      have hnone : ∀ start cs, '\x60' ∉ cs → measureBacktick start cs = .error (.unexpected "\x60" start) := by
        intro start cs hcs
        have hfind : cs.findIdx? (· == '\x60') = none := by
          rw [List.findIdx?_eq_none_iff]
          intro c hc
          rw [beq_eq_false_iff_ne]
          rintro rfl
          exact hcs hc
        rw [measureBacktick, hfind]
      rw [List.append_nil, hnone start name hfresh, hnone start' (withReturns name) hfresh']
      exact .failed _ _
  | cons c rest =>
      obtain rfl : c = '\x60' := by simpa using hrest c rfl
      rw [withReturns_append, withReturns_cons (by decide), measureBacktick_append hfresh,
        measureBacktick_append hfresh']
      refine .found ?_ fun _ => .inr ⟨.inl rfl, rfl⟩
      have htake := length_withReturns_take_append name ('\x60' :: rest) 1
      rw [Nat.add_comm 1] at htake
      rw [htake, Nat.add_comm]
      rfl

/-- What does not begin as a comment, a literal or a name in backticks is always a lexeme. -/
theorem exists_measure (hslash : c ≠ '/') (hquote : c ≠ '"') (hhash : c ≠ '#') (hbacktick : c ≠ '\x60')
    (start : Nat) (cs : List Char) :
    ∃ kind n, measure start c cs = .ok (kind, n) ∧ kind.shields = false := by
  have hfound : ∃ r, measure start c cs = .ok r := by
    rw [measure]
    simp only [beq_iff_eq, hslash, hquote, hhash, hbacktick, if_false]
    repeat' split
    all_goals exact ⟨_, rfl⟩
  obtain ⟨⟨kind, n⟩, hfound⟩ := hfound
  refine ⟨kind, n, hfound, ?_⟩
  rw [Bool.eq_false_iff]
  intro hkind
  rcases first_of_shields hfound hkind with h | h | h
  · exact hslash h
  · exact hquote h
  · exact hhash h

theorem measure_returns (c : Char) (start start' : Nat) (cs : List Char) :
    MeasuredAlike c cs (measure start c cs) (measure start' c (withReturns cs)) := by
  by_cases hslash : c = '/'
  · subst hslash
    exact measureSlash_returns '/' start start' cs
  by_cases hquote : c = '"'
  · subst hquote
    exact (literalAfterQuote_returns 0 start start' cs).measuredAlike rfl [] (by decide) fun n => rfl
  by_cases hhash : c = '#'
  · subst hhash
    exact measureHash_returns start start' cs
  by_cases hbacktick : c = '\x60'
  · subst hbacktick
    exact measureBacktick_returns start start' cs
  · obtain ⟨kind, n, hfound, hkind⟩ := exists_measure hslash hquote hhash hbacktick start cs
    exact (measure_settled hfound hkind hbacktick).measuredAlike start start'

end Lexeme

/-! ### Blanks -/

/-- The grammar does not tell two texts between lexemes apart. -/
structure BlanksAlike (cs ds : List Char) : Prop where
  newline : '\n' ∈ ds ↔ '\n' ∈ cs
  nil : ds = [] ↔ cs = []
  filter : ds.filter (fun c => !isBlank c) = cs.filter fun c => !isBlank c

namespace BlanksAlike

variable {cs ds cs' ds' : List Char}

theorem refl (cs : List Char) : BlanksAlike cs cs := ⟨Iff.rfl, Iff.rfl, rfl⟩

theorem append (h : BlanksAlike cs ds) (h' : BlanksAlike cs' ds') : BlanksAlike (cs ++ cs') (ds ++ ds') where
  newline := by rw [List.mem_append, List.mem_append, h.newline, h'.newline]
  nil := by rw [List.append_eq_nil_iff, List.append_eq_nil_iff, h.nil, h'.nil]
  filter := by rw [List.filter_append, List.filter_append, h.filter, h'.filter]

theorem withReturns (cs : List Char) : BlanksAlike cs (withReturns cs) where
  newline := mem_withReturns_iff (by decide)
  nil := withReturns_eq_nil_iff
  filter := filter_withReturns (by decide) cs

theorem append_return (hcs : cs ≠ []) : BlanksAlike cs (cs ++ ['\r']) where
  newline := by simp
  nil := by simp [hcs]
  filter := by
    rw [List.filter_append, List.filter_singleton]
    simp [show isBlank '\r' = true from by decide]

end BlanksAlike

namespace Lexeme

/-! ### Lexemes one by one -/

/-- The second lexeme is the first one with carriage returns before its newlines. Only names in backticks, string
literals and comments have any. -/
structure TakesReturns (cs : List Char) (x y : Lexeme) : Prop where
  text : y.text = returned x.text
  stop : y.stop = returnedOffset cs x.stop
  newline : '\n' ∈ x.text.toList → x.kind = .token .comment ∨
    (x.kind = .token .identifier ∨ x.kind = .token .string) ∧ beginsQuoted x.text = true

/-- The lexeme is a comment that ends with its line, and the second one goes on up to the newline there. -/
structure TakesReturnBehind (cs : List Char) (x y : Lexeme) : Prop where
  comment : x.kind = .token .comment
  nonempty : x.text.toList ≠ []
  plain : '\n' ∉ x.text.toList
  text : y.text.toList = x.text.toList ++ ['\r']
  stop : y.stop = returnedOffset cs x.stop + 1
  newline : StandsAt ['\n'] x.stop cs

/-- The second lexeme is what the first one is in the text `cs` with carriage returns. None begins with a newline. -/
structure Returned (cs : List Char) (x y : Lexeme) : Prop where
  kind : y.kind = x.kind
  gap : BlanksAlike x.gap.toList y.gap.toList
  start : y.start = returnedOffset cs x.start
  begins : ¬StandsAt ['\n'] x.start cs
  taken : TakesReturns cs x y ∨ TakesReturnBehind cs x y

/-- The grammar does not tell the texts of the two lexemes apart when they are comments. -/
theorem Returned.blanksAlike {cs : List Char} {x y : Lexeme} (h : Returned cs x y) :
    BlanksAlike x.text.toList y.text.toList := by
  rcases h.taken with htaken | htaken
  · rw [htaken.text, toList_returned]
    exact .withReturns _
  · rw [htaken.text]
    exact .append_return htaken.nonempty

/-- How a text is cut, and how with carriage returns: alike, or with carriage returns not at all because of an escaped
newline in a string literal. -/
inductive ScannedAlike (cs : List Char) :
    Except SyntaxError (List Lexeme) → Except SyntaxError (List Lexeme) → Prop
  | failed (e e' : SyntaxError) : ScannedAlike cs (.error e) (.error e')
  | found {xs ys : List Lexeme} (h : List.Forall₂ (Returned cs) xs ys) : ScannedAlike cs (.ok xs) (.ok ys)
  | lost {xs : List Lexeme} (e' : SyntaxError) {x : Lexeme} (hx : x ∈ xs) (hkind : x.kind = .token .string)
      (hescape : EscapesNewline x.text.toList) : ScannedAlike cs (.ok xs) (.error e')

theorem ScannedAlike.cons {cs : List Char} {r r' : Except SyntaxError (List Lexeme)} {x y : Lexeme}
    (h : ScannedAlike cs r r') (hxy : Returned cs x y) : ScannedAlike cs (r.map (x :: ·)) (r'.map (y :: ·)) := by
  cases h with
  | failed e e' => exact .failed e e'
  | found h => exact .found (.cons hxy h)
  | lost e' hx hkind hescape => exact .lost e' (List.mem_cons_of_mem _ hx) hkind hescape

/-! ### Cutting -/

theorem scan_of_isLayout {c : Char} (hc : isLayout c = true) (offset : Nat) (gap : String) (cs : List Char) :
    scan offset gap (c :: cs) = scan (offset + c.utf8Size) (gap.push c) cs := by
  rw [scan, if_pos hc]

/-- The offset behind a first part and a piece. -/
theorem byteLength_add_byteLength (front piece : List Char) :
    byteLength front + byteLength piece = byteLength (front ++ piece) := (byteLength_append front piece).symm

/-- One character stands behind a first part of a text, no other one. -/
theorem eq_of_standsAt {whole front cs : List Char} {c d : Char} (hwhole : whole = front ++ c :: cs)
    (h : StandsAt [d] (byteLength front) whole) : d = c := by
  obtain ⟨front', back, hparts, hlength⟩ := h
  rw [hwhole, List.append_assoc] at hparts
  exact (List.cons.inj (append_inj_of_byteLength_eq hparts hlength.symm).2).1.symm

section Step

variable {whole front : List Char} {c : Char} {cs : List Char} {kind : LexemeKind} {n : Nat} {gap gap' : String}

theorem stop_mk (kind : LexemeKind) (gap : String) (offset : Nat) (piece : List Char) :
    stop ⟨kind, gap, offset, String.ofList piece⟩ = offset + byteLength piece := by
  rw [stop, utf8ByteSize_ofList]

/-- A lexeme that is found in both texts. -/
theorem returned_found (hwhole : whole = front ++ c :: cs) (hc : c ≠ '\n')
    (hgap : BlanksAlike gap.toList gap'.toList)
    (hnewline : '\n' ∈ cs.take n → kind = .token .comment ∨
      (kind = .token .identifier ∨ kind = .token .string) ∧ isQuoteMark c = true) :
    Returned whole ⟨kind, gap, byteLength front, String.ofList (c :: cs.take n)⟩
      ⟨kind, gap', byteLength (withReturns front), String.ofList (c :: withReturns (cs.take n))⟩ where
  kind := rfl
  gap := hgap
  start := by rw [hwhole, returnedOffset_byteLength]
  begins hnewline := hc (eq_of_standsAt hwhole hnewline).symm
  taken := by
    left
    constructor
    · rw [returned_ofList, withReturns_cons hc]
    · have hparts : whole = (front ++ c :: cs.take n) ++ cs.drop n := by
        rw [hwhole, List.append_assoc, List.cons_append, List.take_append_drop]
      rw [stop_mk, stop_mk, byteLength_add_byteLength, byteLength_add_byteLength, hparts,
        returnedOffset_byteLength, withReturns_append, withReturns_cons hc]
    · rw [String.toList_ofList]
      intro hmem
      have hmem := (List.mem_cons.1 hmem).resolve_left (Ne.symm hc)
      refine (hnewline hmem).imp_right fun hquoted => ⟨hquoted.1, ?_⟩
      rw [beginsQuoted, String.toList_ofList, List.head?_cons, Option.any_some, hquoted.2]

/-- A comment that ends with its line. -/
theorem returned_line {back : List Char} (hwhole : whole = front ++ c :: cs) (hc : c ≠ '\n')
    (hgap : BlanksAlike gap.toList gap'.toList) (hrest : cs.drop n = '\n' :: back) (hplain : '\n' ∉ cs.take n) :
    Returned whole ⟨.token .comment, gap, byteLength front, String.ofList (c :: cs.take n)⟩
      ⟨.token .comment, gap', byteLength (withReturns front), String.ofList (c :: (cs.take n ++ ['\r']))⟩ where
  kind := rfl
  gap := hgap
  start := by rw [hwhole, returnedOffset_byteLength]
  begins hnewline := hc (eq_of_standsAt hwhole hnewline).symm
  taken := by
    have hparts : whole = (front ++ c :: cs.take n) ++ '\n' :: back := by
      rw [hwhole, List.append_assoc, List.cons_append, ← hrest, List.take_append_drop]
    right
    refine ⟨rfl, by simp, ?_, ?_, ?_, ?_⟩
    · rw [String.toList_ofList, List.mem_cons, not_or]
      exact ⟨Ne.symm hc, hplain⟩
    · rw [String.toList_ofList, String.toList_ofList]
      rfl
    · have hreturn : byteLength ['\r'] = 1 := rfl
      rw [stop_mk, stop_mk, byteLength_add_byteLength, byteLength_add_byteLength, hparts,
        returnedOffset_byteLength, withReturns_append, withReturns_cons hc, withReturns_eq_self hplain,
        ← hreturn, byteLength_add_byteLength]
      simp
    · exact ⟨front ++ c :: cs.take n, back, by simp [hparts], by rw [stop_mk, byteLength_add_byteLength]⟩

end Step

/-- The characters that a lexeme takes along with their carriage returns. -/
theorem take_withReturns (n : Nat) (cs : List Char) :
    (withReturns cs).take (withReturns (cs.take n)).length = withReturns (cs.take n) := by
  have hparts : withReturns cs = withReturns (cs.take n) ++ withReturns (cs.drop n) := by
    rw [← withReturns_append, List.take_append_drop]
  rw [hparts, List.take_left]

/-- The characters up to a newline and those behind it, with carriage returns. -/
theorem take_drop_withReturns_line {n : Nat} {cs back : List Char} (hrest : cs.drop n = '\n' :: back)
    (hplain : '\n' ∉ cs.take n) :
    (withReturns cs).take (n + 1) = cs.take n ++ ['\r'] ∧ (withReturns cs).drop (n + 1) = '\n' :: withReturns back := by
  have hparts : withReturns cs = (cs.take n ++ ['\r']) ++ '\n' :: withReturns back := by
    have hsplit := withReturns_append (cs.take n) (cs.drop n)
    rw [List.take_append_drop, hrest, withReturns_eq_self hplain, withReturns_newline] at hsplit
    simp [hsplit]
  have hsize : (cs.take n ++ ['\r']).length = n + 1 := by
    have hlong := congrArg List.length hrest
    rw [List.length_drop, List.length_cons] at hlong
    rw [List.length_append, List.length_take, List.length_singleton]
    omega
  rw [hparts, ← hsize]
  exact ⟨List.take_left, List.drop_left⟩

/-- Behind the first part `front`, the rest `cs` of a text is cut with carriage returns as it is without them. -/
def ScansAlike (whole front cs : List Char) : Prop :=
  ∀ gap gap' : String, BlanksAlike gap.toList gap'.toList →
    ScannedAlike whole (scan (byteLength front) gap cs) (scan (byteLength (withReturns front)) gap' (withReturns cs))

namespace ScansAlike

variable {whole front : List Char} {c : Char} {cs : List Char}

theorem nil : ScansAlike whole front [] := by
  intro gap gap' _
  rw [withReturns_nil, scan, scan]
  exact .found .nil

theorem newline (h : ScansAlike whole (front ++ ['\n']) cs) : ScansAlike whole front ('\n' :: cs) := by
  intro gap gap' hgap
  have hlater := h (gap.push '\n') ((gap'.push '\r').push '\n') ?_
  · rw [withReturns_append, byteLength_append, byteLength_append] at hlater
    rw [withReturns_newline, scan_of_isLayout (by decide), scan_of_isLayout (by decide),
      scan_of_isLayout (by decide), Nat.add_assoc]
    exact hlater
  · rw [String.toList_push, String.toList_push, String.toList_push, List.append_assoc]
    exact hgap.append (.withReturns ['\n'])

theorem blank (hlayout : isLayout c = true) (hc : c ≠ '\n') (h : ScansAlike whole (front ++ [c]) cs) :
    ScansAlike whole front (c :: cs) := by
  intro gap gap' hgap
  have hlater := h (gap.push c) (gap'.push c) ?_
  · rw [withReturns_append, withReturns_cons hc, withReturns_nil, byteLength_append, byteLength_append] at hlater
    rw [withReturns_cons hc, scan_of_isLayout hlayout, scan_of_isLayout hlayout]
    exact hlater
  · rw [String.toList_push, String.toList_push]
    exact hgap.append (.refl [c])

/-- A lexeme is cut off both texts when what stands behind it is cut alike. -/
theorem lexeme (hwhole : whole = front ++ c :: cs) (hlayout : ¬isLayout c = true) (hc : c ≠ '\n')
    (h : ∀ piece rest, cs = piece ++ rest → ScansAlike whole (front ++ c :: piece) rest) :
    ScansAlike whole front (c :: cs) := by
  intro gap gap' hgap
  have hmeasured := measure_returns c (byteLength front) (byteLength (withReturns front)) cs
  rw [withReturns_cons hc]
  generalize hplain : measure (byteLength front) c cs = plain at hmeasured
  generalize hreturn : measure (byteLength (withReturns front)) c (withReturns cs) = inReturns at hmeasured
  cases hmeasured with
  | failed e e' =>
      rw [scan, if_neg hlayout, hplain, scan, if_neg hlayout, hreturn]
      exact .failed e e'
  | @found kind n n' hn hquoted =>
      subst hn
      have hlater := h (cs.take n) (cs.drop n) (List.take_append_drop n cs).symm "" "" (.refl _)
      rw [withReturns_append, withReturns_cons hc, byteLength_append, byteLength_append] at hlater
      rw [scan_of_measure hlayout hplain, scan_of_measure hlayout hreturn, take_withReturns, drop_withReturns]
      exact hlater.cons (returned_found hwhole hc hgap hquoted)
  | @line n back hrest hline =>
      -- both texts go on behind the newline at the end of the comment
      obtain ⟨htake, hdrop⟩ := take_drop_withReturns_line hrest hline
      have hparts : cs = (cs.take n ++ ['\n']) ++ back := by
        rw [List.append_assoc, List.singleton_append, ← hrest, List.take_append_drop]
      have hlater := h (cs.take n ++ ['\n']) back hparts "\n" "\n" (.refl _)
      have hplace : byteLength (front ++ c :: (cs.take n ++ ['\n'])) =
          byteLength front + byteLength (c :: cs.take n) + ('\n' : Char).utf8Size := by
        rw [byteLength_append, ← List.cons_append, byteLength_append, Nat.add_assoc]
        rfl
      have hplace' : byteLength (withReturns (front ++ c :: (cs.take n ++ ['\n']))) =
          byteLength (withReturns front) + byteLength (c :: (cs.take n ++ ['\r'])) + ('\n' : Char).utf8Size := by
        have hpiece : withReturns (c :: (cs.take n ++ ['\n'])) = c :: (cs.take n ++ ['\r']) ++ ['\n'] := by
          rw [withReturns_cons hc, withReturns_append, withReturns_eq_self hline]
          simp
        rw [withReturns_append, hpiece, byteLength_append, byteLength_append, Nat.add_assoc]
        rfl
      rw [hplace, hplace'] at hlater
      rw [scan_of_measure hlayout hplain, scan_of_measure hlayout hreturn, htake, hdrop, hrest,
        scan_of_isLayout (by decide), scan_of_isLayout (by decide)]
      exact hlater.cons (returned_line hwhole hc hgap hrest hline)
  | @lost n e' hescape =>
      rw [scan_of_measure hlayout hplain, scan, if_neg hlayout, hreturn]
      cases scan (byteLength front + byteLength (c :: cs.take n)) "" (cs.drop n) with
      | error e => exact .failed e e'
      | ok later =>
          refine .lost e' List.mem_cons_self rfl ?_
          rw [String.toList_ofList]
          simpa using hescape.append [c] []

end ScansAlike

theorem scansAlike {whole : List Char} (front : List Char) {cs : List Char} (hwhole : whole = front ++ cs) :
    ScansAlike whole front cs := by
  induction hlength : cs.length using Nat.strongRecOn generalizing front cs with
  | ind length ih =>
      cases cs with
      | nil => exact .nil
      | cons c cs =>
          have hnext : ∀ piece rest, cs = piece ++ rest → ScansAlike whole (front ++ c :: piece) rest := by
            intro piece rest hpiece
            refine ih rest.length ?_ _ (by rw [hwhole, hpiece]; simp) rfl
            rw [← hlength, hpiece, List.length_cons, List.length_append]
            omega
          by_cases hnewline : c = '\n'
          · subst hnewline
            exact .newline (hnext [] cs rfl)
          · by_cases hlayout : isLayout c = true
            · exact .blank hlayout hnewline (hnext [] cs rfl)
            · exact .lexeme hwhole hlayout hnewline hnext

/-- The lexemes of a source text with carriage returns. -/
theorem ofSource_returned (source : String) :
    ScannedAlike source.toList (ofSource source) (ofSource (returned source)) := by
  rw [ofSource, ofSource, toList_returned]
  exact scansAlike [] rfl "" "" (.refl _)

end Lexeme

end SourceLint
