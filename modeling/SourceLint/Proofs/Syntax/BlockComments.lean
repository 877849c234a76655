import SourceLint.Proofs.Bytes.Encoding

/-!
# Block comments

Block comments nest. The function that measures one counts the comments that are open. Beside it stands the
grammar: a comment is an opening delimiter, a body and a closing delimiter, and in a body there are other comments
and bytes at which no delimiter begins. The count finds the end that the grammar gives, which is the only one, and it
finds none where the grammar gives none.

## Implementation notes

Delimiters may overlap, as in `/*/` and `*/*`, so whether a byte belongs to a delimiter depends on the byte behind it.
The relations of the grammar hold between a text and what remains of it behind a comment or behind a part of a body,
and so what stands behind is always at hand.
-/

namespace SourceLint.Lexeme

/-- A part of a block comment stands between the beginning of the text and the rest: comments within the comment, and
characters at which no delimiter begins. -/
inductive CommentBody : (text rest : List Char) → Prop
  | empty (rest : List Char) : CommentBody rest rest
  | comment {inside middle rest : List Char} (inner : CommentBody inside ('*' :: '/' :: middle))
      (later : CommentBody middle rest) : CommentBody ('/' :: '*' :: inside) rest
  | other {c : Char} {cs rest : List Char} (opens : ¬['/', '*'] <+: c :: cs) (closes : ¬['*', '/'] <+: c :: cs)
      (later : CommentBody cs rest) : CommentBody (c :: cs) rest

/-- A block comment stands at the beginning of the text, and its last byte is the one before the offset. The bytes of
the text are written as characters. -/
def IsCommentUpTo (text : List Char) (stop : Nat) : Prop :=
  ∃ inside rest, text = '/' :: '*' :: inside ∧ CommentBody inside ('*' :: '/' :: rest) ∧
    text.length = stop + rest.length

variable {cs rest : List Char} {outer n : Nat}

/-! ### From the grammar to the count -/

theorem blockCommentTail_other {c : Char} (hopens : ¬['/', '*'] <+: c :: cs) (hcloses : ¬['*', '/'] <+: c :: cs) :
    blockCommentTail outer (c :: cs) = (blockCommentTail outer cs).map (· + 1) := by
  rw [blockCommentTail]
  · rintro ds rfl rfl
    exact hopens ⟨ds, rfl⟩
  · rintro ds - rfl rfl
    exact hcloses ⟨ds, rfl⟩
  · rintro more ds - rfl rfl
    exact hcloses ⟨ds, rfl⟩

/-- The number of open comments is the same behind a part of a body as before it. -/
theorem CommentBody.blockCommentTail_eq (h : CommentBody cs rest) (outer : Nat) :
    ∃ front, cs = front ++ rest ∧
      blockCommentTail outer cs = (blockCommentTail outer rest).map (· + front.length) := by
  induction h generalizing outer with
  | empty rest => exact ⟨[], rfl, by simp⟩
  | @comment inside middle rest inner later ihInner ihLater =>
      obtain ⟨front, rfl, hinner⟩ := ihInner (outer + 1)
      obtain ⟨back, rfl, hlater⟩ := ihLater outer
      refine ⟨'/' :: '*' :: (front ++ '*' :: '/' :: back), by simp, ?_⟩
      rw [blockCommentTail, hinner, blockCommentTail, hlater]
      simp only [Option.map_map]
      congr 1
      funext n
      simp
      omega
  | @other c cs rest hopens hcloses later ih =>
      obtain ⟨front, rfl, hlater⟩ := ih outer
      refine ⟨c :: front, rfl, ?_⟩
      rw [blockCommentTail_other hopens hcloses, hlater, Option.map_map]
      rfl

/-- A closing delimiter behind a body is found. -/
theorem CommentBody.exists_front (h : CommentBody cs ('*' :: '/' :: rest)) :
    ∃ front, cs = front ++ '*' :: '/' :: rest ∧ blockCommentTail 0 cs = some (front.length + 2) := by
  obtain ⟨front, hparts, htail⟩ := h.blockCommentTail_eq 0
  refine ⟨front, hparts, ?_⟩
  rw [htail, blockCommentTail]
  simp [Nat.add_comm]

/-! ### From the count to the grammar -/

/-- What the text has to hold when so many comments are open around one: the rest of its body, and its end and the
ends of the others with bodies between them. -/
inductive Closes : (outer : Nat) → (text rest : List Char) → Prop
  | innermost {text rest : List Char} (body : CommentBody text ('*' :: '/' :: rest)) : Closes 0 text rest
  | within {outer : Nat} {text middle rest : List Char} (body : CommentBody text ('*' :: '/' :: middle))
      (later : Closes outer middle rest) : Closes (outer + 1) text rest

/-- What is put before a body does not matter to the comments around it. -/
theorem Closes.before {cs' : List Char} (h : Closes outer cs rest)
    (hbody : ∀ {rest}, CommentBody cs rest → CommentBody cs' rest) : Closes outer cs' rest := by
  cases h with
  | innermost body => exact .innermost (hbody body)
  | within body later => exact .within (hbody body) later

/-- An end that is found closes all open comments. -/
theorem closes_of_blockCommentTail (h : blockCommentTail outer cs = some n) : Closes outer cs (cs.drop n) := by
  fun_induction blockCommentTail outer cs generalizing n with
  | case1 outer cs ih =>
      obtain ⟨k, hk, rfl⟩ := Option.map_eq_some_iff.1 h
      cases ih hk with
      | within body later => exact later.before fun hlater => .comment body hlater
  | case2 cs =>
      obtain rfl := Option.some.inj h
      exact .innermost (.empty _)
  | case3 outer cs ih =>
      obtain ⟨k, hk, rfl⟩ := Option.map_eq_some_iff.1 h
      exact .within (.empty _) (ih hk)
  | case4 outer c cs hopen hend hclose ih =>
      obtain ⟨k, hk, rfl⟩ := Option.map_eq_some_iff.1 h
      refine (ih hk).before (.other ?_ ?_)
      · rintro ⟨ds, hds⟩
        obtain ⟨hc, hcs⟩ := List.cons.inj hds
        exact hopen ds hc.symm hcs.symm
      · rintro ⟨ds, hds⟩
        obtain ⟨hc, hcs⟩ := List.cons.inj hds
        cases outer with
        | zero => exact hend ds rfl hc.symm hcs.symm
        | succ outer => exact hclose outer ds rfl hc.symm hcs.symm
  | case5 => cases h

/-! ### Comments of a text -/

/-- A comment ends where its end is found. -/
theorem isCommentUpTo_iff {stop : Nat} :
    IsCommentUpTo ('/' :: '*' :: cs) stop ↔ ∃ n, blockCommentTail 0 cs = some n ∧ stop = n + 2 := by
  constructor
  · rintro ⟨inside, rest, htext, hbody, hstop⟩
    obtain rfl : cs = inside := (List.cons.inj (List.cons.inj htext).2).2
    obtain ⟨front, rfl, htail⟩ := hbody.exists_front
    refine ⟨_, htail, ?_⟩
    simp only [List.length_cons, List.length_append] at hstop
    omega
  · rintro ⟨n, hn, rfl⟩
    cases closes_of_blockCommentTail hn with
    | innermost body =>
        obtain ⟨front, hparts, htail⟩ := body.exists_front
        obtain rfl := Option.some.inj (hn.symm.trans htail)
        refine ⟨cs, _, rfl, body, ?_⟩
        have hlength := congrArg List.length hparts
        simp only [List.length_cons, List.length_append] at hlength ⊢
        omega

/-- No two offsets are the end of the comment. -/
theorem IsCommentUpTo.unique {text : List Char} {stop stop' : Nat} (h : IsCommentUpTo text stop)
    (h' : IsCommentUpTo text stop') : stop = stop' := by
  obtain ⟨inside, -, rfl, -, -⟩ := id h
  obtain ⟨n, hn, rfl⟩ := isCommentUpTo_iff.1 h
  obtain ⟨n', hn', rfl⟩ := isCommentUpTo_iff.1 h'
  rw [Option.some.inj (hn.symm.trans hn')]

/-- The bytes of a text that opens a comment. -/
theorem bytes_comment (cs : List Char) : bytes ('/' :: '*' :: cs) = '/' :: '*' :: bytes cs :=
  bytes_ascii (ascii_of_any (by decide) : ∀ d ∈ ['/', '*'], ¬IsHigh d) cs

theorem measure_comment (start : Nat) (cs : List Char) :
    measure start '/' ('*' :: cs) = match blockCommentTail 0 cs with
      | some n => .ok (.token .comment, n + 1)
      | none => .error (.unterminatedComment start) :=
  rfl

/-- The bytes up to the end that is found are a comment. -/
theorem isCommentUpTo_bytes_iff {stop : Nat} : IsCommentUpTo (bytes ('/' :: '*' :: cs)) stop ↔
    ∃ n, blockCommentTail 0 cs = some n ∧ byteLength ('/' :: ('*' :: cs).take (n + 1)) = stop := by
  have hopening : ∀ n, byteLength ('/' :: ('*' :: cs).take (n + 1)) = byteLength (cs.take n) + 2 := by
    intro n
    rw [List.take_succ_cons, byteLength_cons, byteLength_cons, utf8Size_of_ascii (by decide),
      utf8Size_of_ascii (by decide)]
    omega
  rw [bytes_comment, isCommentUpTo_iff, blockCommentTail_bytes]
  constructor
  · rintro ⟨size, hsize, rfl⟩
    obtain ⟨n, hn, rfl⟩ := Option.map_eq_some_iff.1 hsize
    exact ⟨n, hn, hopening n⟩
  · rintro ⟨n, hn, rfl⟩
    exact ⟨_, by rw [hn]; rfl, hopening n⟩

/-- At the beginning of a block comment the lexer finds the comment of the grammar, read byte by byte: it stops at an
offset exactly when the bytes up to there are one, there is at most one such offset, and the comment is reported as
unterminated exactly when there is none. -/
theorem measure_blockComment (start : Nat) (cs : List Char) :
    (∀ stop, (∃ n, measure start '/' ('*' :: cs) = .ok (.token .comment, n) ∧
        byteLength ('/' :: ('*' :: cs).take n) = stop) ↔ IsCommentUpTo (bytes ('/' :: '*' :: cs)) stop) ∧
      (∀ stop stop', IsCommentUpTo (bytes ('/' :: '*' :: cs)) stop →
        IsCommentUpTo (bytes ('/' :: '*' :: cs)) stop' → stop = stop') ∧
      (measure start '/' ('*' :: cs) = .error (.unterminatedComment start) ↔
        ∀ stop, ¬IsCommentUpTo (bytes ('/' :: '*' :: cs)) stop) := by
  rw [measure_comment]
  cases htail : blockCommentTail 0 cs with
  | none =>
      have hnone : ∀ stop, ¬IsCommentUpTo (bytes ('/' :: '*' :: cs)) stop := by
        intro stop h
        obtain ⟨n, hn, -⟩ := isCommentUpTo_bytes_iff.1 h
        rw [htail] at hn
        cases hn
      refine ⟨fun stop => ⟨?_, fun h => absurd h (hnone stop)⟩, fun _ _ => IsCommentUpTo.unique,
        fun _ => hnone, fun _ => rfl⟩
      rintro ⟨n, hn, -⟩
      cases hn
  | some n =>
      have hstop : IsCommentUpTo (bytes ('/' :: '*' :: cs)) (byteLength ('/' :: ('*' :: cs).take (n + 1))) :=
        isCommentUpTo_bytes_iff.2 ⟨n, htail, rfl⟩
      refine ⟨fun stop => ⟨?_, fun h => ⟨n + 1, rfl, hstop.unique h⟩⟩, fun _ _ => IsCommentUpTo.unique,
        fun herror => ?_, fun hnone => absurd hstop (hnone _)⟩
      · rintro ⟨k, hk, rfl⟩
        obtain ⟨-, rfl⟩ := Prod.mk.inj (Except.ok.inj hk)
        exact hstop
      · cases herror

/-- A comment with a comment, a quote and stars in it, and a text in which the two delimiters share their slash. -/
theorem measure_blockComment_nested :
    let inside := ['/', '*', 'é', '*', '/', '"', '*', '*', '/', ' ', '*', '/']
    measure 0 '/' ('*' :: inside) = .ok (.token .comment, 10) ∧ IsCommentUpTo (bytes ('/' :: '*' :: inside)) 12 ∧
      (∀ stop, IsCommentUpTo (bytes ('/' :: '*' :: inside)) stop → stop = 12) ∧
      measure 7 '/' ['*', '/'] = .error (.unterminatedComment 7) ∧
      ∀ stop, ¬IsCommentUpTo (bytes ['/', '*', '/']) stop := by
  intro inside
  obtain ⟨hstops, hunique, -⟩ := measure_blockComment 0 inside
  obtain ⟨-, -, herror⟩ := measure_blockComment 7 ['/']
  have hstop : IsCommentUpTo (bytes ('/' :: '*' :: inside)) 12 := (hstops 12).1 ⟨10, rfl, rfl⟩
  exact ⟨rfl, hstop, fun stop h => hunique stop 12 h hstop, rfl, herror.1 rfl⟩

end SourceLint.Lexeme
