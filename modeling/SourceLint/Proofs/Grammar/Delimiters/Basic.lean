import Mathlib.Data.List.TakeWhile
import SourceLint.Proofs.Grammar.Harmless
import SourceLint.Proofs.Grammar.Reading

/-!
# Delimiters that nest

A group is read up to the delimiter that closes it, so the delimiters that the grammar reads nest. In a few
places it takes lexemes without asking whether they are delimiters: the name of a function, the name that
a condition binds, the pattern of a loop, the head of a closure, and what is no parameter in a list of
parameters. `Grammar.Nests` allows for these places and for nothing else.

## Main definitions

* `Grammar.Nests` — what may stand between two places of a text.
* `Cursor.Nests`, `Cursor.Enters` — what a production takes.

## Implementation notes

`Nests` relates the lexemes ahead of two places and not the stretch between them. The head of a closure is
found by looking ahead, possibly beyond what is taken, and stretches are put together by transitivity.
-/

namespace SourceLint

/-! ### Delimiters -/

namespace Lexeme

/-- The texts of the lexemes that open and close groups. -/
def delimiters : List String := ["(", "[", "\x7b", ")", "]", "\x7d"]

/-- The lexeme opens or closes a group. -/
def isDelimiter (lexeme : Lexeme) : Bool :=
  lexeme.kind == .punctuation && delimiters.contains lexeme.text

variable {lexeme opener closer : Lexeme} {text : String}

theorem isDelimiter_eq (lexeme : Lexeme) : lexeme.isDelimiter = (lexeme.isOpener || lexeme.isCloser) := by
  simp only [isDelimiter, isOpener, isCloser, isSymbol, delimiters, List.contains_cons,
    List.contains_nil, Bool.or_false, ← Bool.and_or_distrib_left, Bool.or_assoc]

theorem isDelimiter_of_token {kind : TokenKind} (h : lexeme.kind = .token kind) :
    lexeme.isDelimiter = false := by
  rw [isDelimiter, h]
  rfl

theorem isDelimiter_of_isKeyword (h : lexeme.isKeyword text = true) : lexeme.isDelimiter = false := by
  rw [isKeyword, Bool.and_eq_true, beq_iff_eq] at h
  exact isDelimiter_of_token h.1

theorem isDelimiter_of_isIdentifier (h : lexeme.isIdentifier = true) : lexeme.isDelimiter = false := by
  rw [isIdentifier, beq_iff_eq] at h
  exact isDelimiter_of_token h

theorem isDelimiter_of_or {p q : Bool} (hp : p = true → lexeme.isDelimiter = false)
    (hq : q = true → lexeme.isDelimiter = false) (h : (p || q) = true) : lexeme.isDelimiter = false := by
  rw [Bool.or_eq_true] at h
  exact h.elim hp hq

theorem isDelimiter_of_isWord (h : lexeme.isWord = true) : lexeme.isDelimiter = false :=
  isDelimiter_of_or isDelimiter_of_isIdentifier (fun h => isDelimiter_of_token (eq_of_beq h)) h

theorem isDelimiter_of_text (h : delimiters.contains lexeme.text = false) :
    lexeme.isDelimiter = false := by
  rw [isDelimiter, h, Bool.and_false]

theorem isDelimiter_of_isSymbol (h : lexeme.isSymbol text = true)
    (hplain : delimiters.contains text = false) : lexeme.isDelimiter = false := by
  rw [isSymbol, Bool.and_eq_true, beq_iff_eq, beq_iff_eq] at h
  exact isDelimiter_of_text (h.2 ▸ hplain)

/-- A delimiter begins with a character that begins nothing else. -/
theorem isDelimiter_of_chars {p : Char → Bool} (hp : ['(', '[', '\x7b', ')', ']', '\x7d'].any p = false)
    (h : (lexeme.text.toList.head?.any p) = true) : lexeme.isDelimiter = false := by
  apply isDelimiter_of_text
  rw [← Bool.not_eq_true, List.contains_iff_mem]
  intro hmem
  simp only [delimiters, List.mem_cons, List.not_mem_nil, or_false] at hmem
  simp only [List.any_cons, List.any_nil, Bool.or_false, Bool.or_eq_false_iff] at hp
  rcases hmem with heq | heq | heq | heq | heq | heq <;> simp [heq, hp] at h

theorem isDelimiter_of_mem_takeWhile {test : Lexeme → Bool}
    (h : ∀ lexeme, test lexeme = true → lexeme.isDelimiter = false) (lexemes : List Lexeme) :
    ∀ lexeme ∈ lexemes.take (lexemes.takeWhile test).length, lexeme.isDelimiter = false := by
  intro lexeme hmem
  rw [← List.prefix_iff_eq_take.1 (List.takeWhile_prefix test)] at hmem
  exact h lexeme (List.mem_takeWhile_imp hmem)

theorem isOpener_of_closes (h : closer.closes opener = true) : opener.isOpener = true := by
  simp only [closes, Bool.or_eq_true, Bool.and_eq_true] at h
  simp only [isOpener, Bool.or_eq_true]
  exact h.imp (Or.imp And.left And.left) And.left

theorem isCloser_of_closes (h : closer.closes opener = true) : closer.isCloser = true := by
  simp only [closes, Bool.or_eq_true, Bool.and_eq_true] at h
  simp only [isCloser, Bool.or_eq_true]
  exact h.imp (Or.imp And.right And.right) And.right

/-- No lexeme both opens and closes a group. -/
theorem isOpener_of_isCloser (h : lexeme.isCloser = true) : lexeme.isOpener = false := by
  simp only [isCloser, isSymbol, Bool.or_eq_true, Bool.and_eq_true, beq_iff_eq] at h
  simp only [isOpener, isSymbol]
  rcases h with (⟨-, h⟩ | ⟨-, h⟩) | ⟨-, h⟩ <;> simp [h]

theorem closes_round (hopener : opener.isSymbol "(" = true) (hcloser : closer.isSymbol ")" = true) :
    closer.closes opener = true := by
  simp [closes, hopener, hcloser]

theorem closes_square (hopener : opener.isSymbol "[" = true) (hcloser : closer.isSymbol "]" = true) :
    closer.closes opener = true := by
  simp [closes, hopener, hcloser]

theorem closes_curly (hopener : opener.isSymbol "\x7b" = true)
    (hcloser : closer.isSymbol "\x7d" = true) : closer.closes opener = true := by
  simp [closes, hopener, hcloser]

end Lexeme

namespace Grammar

open Lexeme

/-! ### What the grammar takes -/

/-- The lexemes may stand in the pattern of a loop with `depth` groups open: parentheses and brackets agree
in number but not in kind, and outside of them no brace opens. -/
def isLoopPattern : (depth : Nat) → List Lexeme → Bool
  | depth, [] => depth == 0
  | depth, lexeme :: lexemes =>
    if depth == 0 && lexeme.isSymbol "\x7b" then false
    else if lexeme.isSymbol "(" || lexeme.isSymbol "[" then isLoopPattern (depth + 1) lexemes
    else if lexeme.isSymbol ")" || lexeme.isSymbol "]" then
      match depth with
      | 0 => false
      | depth + 1 => isLoopPattern depth lexemes
    else isLoopPattern depth lexemes

/-- Behind the lexeme a condition binds a name. -/
def leadsCondition (lexeme : Lexeme) : Bool :=
  lexeme.isSymbol "," || ["if", "while", "guard"].any lexeme.isKeyword

theorem isDelimiter_of_leadsCondition {leader : Lexeme} (h : leadsCondition leader = true) :
    leader.isDelimiter = false := by
  rw [leadsCondition, Bool.or_eq_true, List.any_eq_true] at h
  obtain hcomma | ⟨word, -, hword⟩ := h
  · exact isDelimiter_of_isSymbol hcomma (by decide)
  · exact isDelimiter_of_isKeyword hword

/-- A capture list is taken: anything between two brackets, if what comes next looks like one. -/
def TakesCaptures (lexemes later : List Lexeme) : Prop :=
  ((groupLength? 0 lexemes).bind fun n => signatureLength? (lexemes.drop n)).isSome = true ∧
    ∃ opener inside closer, lexemes = opener :: (inside ++ closer :: later) ∧
      opener.isSymbol "[" = true ∧ closer.isSymbol "]" = true

/-- The signature of a closure is taken: what may stand in one, up to `in`. -/
def TakesSignature (lexemes later : List Lexeme) : Prop :=
  ∃ parts word, lexemes = parts ++ word :: later ∧ word.isKeyword "in" = true ∧
    ∀ lexeme ∈ parts, isSignaturePart lexeme = true

/-- What stands between an opening delimiter and the statements of its group is taken: the head of a
closure, or nothing. -/
def TakesHead (opener : Lexeme) (lexemes later : List Lexeme) : Prop :=
  later = lexemes ∨ opener.isSymbol "\x7b" = true ∧
    ∃ middle, (middle = lexemes ∨ TakesCaptures lexemes middle) ∧
      (later = middle ∨ TakesSignature middle later)

/-- Where lexemes stand. -/
inductive Place where
  | code
  | parameters
deriving DecidableEq, Repr

/-- Lexemes are taken one by one. Only the first kind of them is known to be no delimiter. -/
inductive Takes : Place → List Lexeme → List Lexeme → Prop where
  | plain {place : Place} {lexeme : Lexeme} {xs : List Lexeme} :
      lexeme.isDelimiter = false → Takes place (lexeme :: xs) xs
  /-- An opening delimiter that is no part of a parameter. -/
  | stray {opener : Lexeme} {xs : List Lexeme} :
      opener.isOpener = true → Takes .parameters (opener :: xs) xs
  /-- The name of a function. -/
  | name {place : Place} {keyword name : Lexeme} {xs : List Lexeme} :
      keyword.isKeyword "func" = true → Takes place (keyword :: name :: xs) xs
  /-- The name that a condition binds. -/
  | binding {place : Place} {leader keyword name : Lexeme} {xs : List Lexeme} :
      leadsCondition leader = true → (keyword.isKeyword "let" || keyword.isKeyword "var") = true →
      name.isSymbol "(" = false → Takes place (leader :: keyword :: name :: xs) xs
  /-- The pattern of a loop. -/
  | pattern {place : Place} {keyword word : Lexeme} {inside xs : List Lexeme} :
      keyword.isKeyword "for" = true → isLoopPattern 0 inside = true → word.isKeyword "in" = true →
      Takes place (keyword :: (inside ++ word :: xs)) xs

/-- The lexemes of the first list before those of the second one nest as far as the grammar looks. -/
inductive Nests : Place → List Lexeme → List Lexeme → Prop where
  | refl (place : Place) (xs : List Lexeme) : Nests place xs xs
  | take {place : Place} {xs ys zs : List Lexeme} :
      Takes place xs ys → Nests place ys zs → Nests place xs zs
  | group {place : Place} {opener closer : Lexeme} {xs ys zs ws : List Lexeme} :
      closer.closes opener = true → TakesHead opener xs ys → Nests .code ys (closer :: zs) →
      Nests place zs ws → Nests place (opener :: xs) ws
  /-- The parameters of a function, behind its keyword, its name and its generic parameters. -/
  | parameters {place : Place} {keyword opener closer : Lexeme} {xs ys zs ws : List Lexeme} :
      functionWords.any keyword.isKeyword = true → Nests .code (keyword :: xs) (opener :: ys) →
      closer.closes opener = true → Nests .parameters ys (closer :: zs) → Nests place zs ws →
      Nests place (keyword :: xs) ws

theorem Takes.inParameters {place : Place} {xs ys : List Lexeme} (h : Takes place xs ys) :
    Takes .parameters xs ys := by
  cases h with
  | plain hplain => exact .plain hplain
  | stray hopener => exact .stray hopener
  | name hkeyword => exact .name hkeyword
  | binding hleader hkeyword hname => exact .binding hleader hkeyword hname
  | pattern hkeyword hpattern hword => exact .pattern hkeyword hpattern hword

namespace Nests

variable {place : Place} {xs ys zs : List Lexeme} {lexeme opener closer : Lexeme}

theorem trans (h : Nests place xs ys) (h' : Nests place ys zs) : Nests place xs zs := by
  induction h with
  | refl => exact h'
  | take htake _ ih => exact .take htake (ih h')
  | group hcloses hhead hinside _ _ ih => exact .group hcloses hhead hinside (ih h')
  | parameters hkeyword hhead hcloses hinside _ _ _ ih =>
      exact .parameters hkeyword hhead hcloses hinside (ih h')

theorem of_takes (h : Takes place xs ys) : Nests place xs ys := .take h (.refl _ _)

theorem plain (h : lexeme.isDelimiter = false) : Nests place (lexeme :: xs) xs := of_takes (.plain h)

/-- A group without a head. -/
theorem enclosed (hcloses : closer.closes opener = true) (hinside : Nests .code xs (closer :: ys)) :
    Nests place (opener :: xs) ys :=
  .group hcloses (.inl rfl) hinside (.refl _ _)

/-- What may stand anywhere may stand in a list of parameters. -/
theorem inParameters (h : Nests place xs ys) : Nests .parameters xs ys := by
  induction h with
  | refl => exact .refl _ _
  | take htake _ ih => exact .take htake.inParameters ih
  | group hcloses hhead hinside _ _ ih => exact .group hcloses hhead hinside ih
  | parameters hkeyword hhead hcloses hinside _ _ _ ih =>
      exact .parameters hkeyword hhead hcloses hinside ih

end Nests

/-! ### Heads of closures -/

theorem takesSignature_of_signatureLength? {xs : List Lexeme} {n : Nat}
    (h : signatureLength? xs = some n) :
    TakesSignature xs (xs.drop (n + 1)) := by
  induction xs generalizing n with
  | nil => cases h
  | cons lexeme xs ih =>
      rw [signatureLength?] at h
      split at h
      · rename_i hword
        obtain rfl := Option.some.inj h
        exact ⟨[], lexeme, rfl, hword, by simp⟩
      · split at h
        · rename_i hpart
          obtain ⟨n, hn, rfl⟩ := Option.map_eq_some_iff.1 h
          obtain ⟨parts, word, hxs, hword, hparts⟩ := ih hn
          refine ⟨lexeme :: parts, word, ?_, hword, ?_⟩
          · rw [List.drop_succ_cons, List.cons_append, ← hxs]
          · exact List.forall_mem_cons.2 ⟨hpart, hparts⟩
        · cases h

/-! ### Lexemes that are left -/

theorem TakesCaptures.suffix {xs ys : List Lexeme} (h : TakesCaptures xs ys) : ys <:+ xs := by
  obtain ⟨-, opener, inside, closer, rfl, -, -⟩ := h
  exact ⟨opener :: inside ++ [closer], by simp⟩

theorem TakesSignature.suffix {xs ys : List Lexeme} (h : TakesSignature xs ys) : ys <:+ xs := by
  obtain ⟨parts, word, rfl, -, -⟩ := h
  exact ⟨parts ++ [word], by simp⟩

theorem TakesHead.suffix {opener : Lexeme} {xs ys : List Lexeme} (h : TakesHead opener xs ys) :
    ys <:+ xs := by
  obtain rfl | ⟨-, middle, hcaptures, hsignature⟩ := h
  · exact List.suffix_rfl
  · have hmiddle : middle <:+ xs := by
      obtain rfl | hcaptures := hcaptures
      · exact List.suffix_rfl
      · exact hcaptures.suffix
    obtain rfl | hsignature := hsignature
    · exact hmiddle
    · exact hsignature.suffix.trans hmiddle

theorem Takes.suffix {place : Place} {xs ys : List Lexeme} (h : Takes place xs ys) : ys <:+ xs := by
  cases h with
  | plain => exact List.suffix_cons _ _
  | stray => exact List.suffix_cons _ _
  | @name _ keyword name => exact ⟨[keyword, name], rfl⟩
  | @binding _ leader keyword name => exact ⟨[leader, keyword, name], rfl⟩
  | @pattern _ keyword word inside => exact ⟨keyword :: inside ++ [word], by simp⟩

theorem Nests.suffix {place : Place} {xs ys : List Lexeme} (h : Nests place xs ys) : ys <:+ xs := by
  induction h with
  | refl => exact List.suffix_rfl
  | take htake _ ih => exact ih.trans htake.suffix
  | @group _ opener closer _ _ _ _ _ hhead _ _ hinside ih =>
      have hclosed := (List.suffix_cons closer _).trans (hinside.trans hhead.suffix)
      exact ih.trans (hclosed.trans (List.suffix_cons opener _))
  | @parameters _ keyword opener closer _ _ _ _ _ _ _ _ _ hhead hinside ih =>
      have hclosed := (List.suffix_cons closer _).trans hinside
      exact ih.trans (hclosed.trans ((List.suffix_cons opener _).trans hhead))

end Grammar

/-! ### Cursors -/

namespace Cursor

/-- The lexemes between the cursors nest. -/
def Nests (c later : Cursor) : Prop := Grammar.Nests .code c.ahead later.ahead

/-- The lexemes between the cursors nest. If a group opens at the first cursor, it is among them. -/
structure Enters (c later : Cursor) : Prop where
  nests : c.Nests later
  hasStalled_eq : c.next Lexeme.isOpener = true → c.hasStalled later = false

variable {c middle later : Cursor} {lexeme : Lexeme}

theorem ahead_of_peek? (hpeek : c.peek? = some lexeme) : c.ahead = lexeme :: c.advance.ahead := by
  obtain ⟨ahead, hahead⟩ := peek?_eq_some_iff.1 hpeek
  rw [advance_of_cons hahead, hahead]

theorem next_isOpener_of_not_isDelimiter (hpeek : c.peek? = some lexeme)
    (h : lexeme.isDelimiter = false) : c.next Lexeme.isOpener = false := by
  rw [Lexeme.isDelimiter_eq, Bool.or_eq_false_iff] at h
  rw [next, hpeek, Option.any_some, h.1]

theorem Reaches.suffix (h : c.Reaches later) : later.ahead <:+ c.ahead := by
  obtain ⟨n, rfl⟩ := h
  rw [ahead_advanceBy]
  exact List.drop_suffix _ _

namespace Nests

theorem refl (c : Cursor) : c.Nests c := Grammar.Nests.refl _ _

theorem trans (h : c.Nests middle) (h' : middle.Nests later) : c.Nests later :=
  Grammar.Nests.trans h h'

theorem length_le (h : c.Nests later) : later.ahead.length ≤ c.ahead.length :=
  (Grammar.Nests.suffix h).length_le

/-- A cursor that has stalled stands at the same lexemes. -/
theorem ahead_eq (h : c.Nests later) (hstalled : c.hasStalled later = true) :
    later.ahead = c.ahead :=
  (Grammar.Nests.suffix h).eq_of_length (eq_of_beq hstalled).symm

theorem advance_of_peek? (hpeek : c.peek? = some lexeme) (h : lexeme.isDelimiter = false) :
    c.Nests c.advance := by
  rw [Nests, ahead_of_peek? hpeek]
  exact .plain h

/-- A lexeme that passes a test is taken, when no delimiter passes the test. -/
theorem advance_of_next {test : Lexeme → Bool} (hnext : c.next test = true)
    (h : ∀ lexeme, test lexeme = true → lexeme.isDelimiter = false) : c.Nests c.advance := by
  obtain ⟨lexeme, hpeek, htest⟩ := (Option.any_eq_true _ _).1 hnext
  exact advance_of_peek? hpeek (h lexeme htest)

theorem advanceBy {n : Nat} (h : ∀ lexeme ∈ c.ahead.take n, lexeme.isDelimiter = false) :
    c.Nests (c.advanceBy n) := by
  induction n generalizing c with
  | zero => exact refl c
  | succ n ih =>
      rw [Cursor.advanceBy]
      cases hahead : c.ahead with
      | nil =>
          rw [advance_of_nil hahead]
          exact ih (by simp [hahead])
      | cons lexeme ahead =>
          rw [hahead, List.take_succ_cons, List.forall_mem_cons] at h
          refine (advance_of_peek? (peek?_eq_some_iff.2 ⟨ahead, hahead⟩) h.1).trans (ih ?_)
          rw [advance_of_cons hahead]
          exact h.2

/-- Two lexemes are taken, the second one with a test that no delimiter passes. -/
theorem advanceBy_two {test : Lexeme → Bool} (hpeek : c.peek? = some lexeme)
    (hplain : lexeme.isDelimiter = false) (hnext : (c.peekAt? 1).any test = true)
    (h : ∀ lexeme, test lexeme = true → lexeme.isDelimiter = false) : c.Nests (c.advanceBy 2) := by
  obtain ⟨ahead, hahead⟩ := peek?_eq_some_iff.1 hpeek
  obtain ⟨second, hsecond, htest⟩ := (Option.any_eq_true _ _).1 hnext
  rw [peekAt?, hahead, List.getElem?_cons_succ, ← List.head?_eq_getElem?] at hsecond
  have hpeek₂ : c.advance.peek? = some second := by
    rw [advance_of_cons hahead]
    exact hsecond
  exact (advance_of_peek? hpeek hplain).trans (advance_of_peek? hpeek₂ (h second htest))

/-- The next lexemes that pass a test are taken, when no delimiter passes the test. -/
theorem takeWhile {test : Lexeme → Bool}
    (h : ∀ lexeme, test lexeme = true → lexeme.isDelimiter = false) :
    c.Nests (c.advanceBy (c.ahead.takeWhile test).length) :=
  advanceBy (Lexeme.isDelimiter_of_mem_takeWhile h c.ahead)

end Nests

namespace Enters

theorem of_nests (h : c.Nests middle) (h' : middle.Enters later) : c.Enters later := by
  refine ⟨h.trans h'.nests, fun hopener => ?_⟩
  have hle := h.length_le
  have hle' := h'.nests.length_le
  cases hstalled : c.hasStalled middle with
  | true =>
      have hahead := h.ahead_eq hstalled
      have := h'.hasStalled_eq (by rwa [next, peek?, hahead])
      rwa [hasStalled, hahead] at this
  | false =>
      simp only [hasStalled, beq_eq_false_iff_ne] at hstalled ⊢
      omega

theorem trans (h : c.Enters middle) (h' : middle.Nests later) : c.Enters later := by
  refine ⟨h.nests.trans h', fun hopener => ?_⟩
  have hle := h.nests.length_le
  have hle' := h'.length_le
  have hne := h.hasStalled_eq hopener
  simp only [hasStalled, beq_eq_false_iff_ne] at hne ⊢
  omega

/-- A whole group is taken. -/
theorem group {opener closer : Lexeme} {xs ys : List Lexeme} (hahead : c.ahead = opener :: xs)
    (hcloses : closer.closes opener = true) (hhead : Grammar.TakesHead opener xs ys)
    (hinside : Grammar.Nests .code ys (closer :: later.ahead)) : c.Enters later := by
  have hshorter := ((List.suffix_cons closer later.ahead).trans
    (hinside.suffix.trans hhead.suffix)).length_le
  constructor
  · rw [Nests, hahead]
    exact .group hcloses hhead hinside (.refl _ _)
  · intro _
    rw [hasStalled, hahead, List.length_cons, beq_eq_false_iff_ne]
    omega

/-- Nothing needs to be taken where no group opens. -/
theorem of_not_isOpener (h : c.Nests later) (hplain : c.next Lexeme.isOpener = false) : c.Enters later :=
  ⟨h, fun hopener => by rw [hplain] at hopener; cases hopener⟩

/-- A lexeme that belongs to nothing is taken where a production has stalled. -/
theorem stall (h : c.Enters later) (hpeek : c.peek? = some lexeme) (hcloser : lexeme.isCloser = false) :
    c.Nests (if c.hasStalled later then later.advance else later) := by
  split
  · rename_i hstalled
    have hahead := h.nests.ahead_eq hstalled
    have hopener : lexeme.isOpener = false := by
      cases hopener : lexeme.isOpener with
      | false => rfl
      | true =>
          rw [h.hasStalled_eq (by rw [next, hpeek, Option.any_some, hopener])] at hstalled
          cases hstalled
    have hplain : lexeme.isDelimiter = false := by
      rw [Lexeme.isDelimiter_eq, hopener, hcloser]
      rfl
    have hlater : later.peek? = some lexeme := by rwa [peek?, hahead]
    exact h.nests.trans (.advance_of_peek? hlater hplain)
  · exact h.nests

end Enters

/-- A repetition whose rounds take what nests takes what nests. -/
theorem meets_repeatRounds_nests {σ β : Type} {round : σ → Cursor → Outcome (Round σ β × Cursor)}
    (hround : ∀ state c, (round state c).Meets fun r => c.Nests r.2) (state : σ) (c : Cursor) :
    (repeatRounds round state c).Meets fun r => c.Nests r.2 :=
  meets_repeatRounds_of_trans Nests.refl Nests.trans hround state c

end Cursor

end SourceLint
