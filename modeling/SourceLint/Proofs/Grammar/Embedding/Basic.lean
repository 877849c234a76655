import Mathlib.Data.List.Forall2
import SourceLint.Proofs.Grammar.Abreast.Basic
import SourceLint.Proofs.Grammar.Embedding.Relocation
import SourceLint.Proofs.Grammar.Separators

/-!
# Reading a text inside another one

One text is read alone and once more inside another text, where a separator and further lexemes may
follow. The second reading follows the first one for as long as that one is inside its text: what the
first one finds at the end of the text, the second one finds at the separator.

## Main definitions

* `Embedding` — how the one text stands in the other.
* `Embedding.Beside` — a cursor of the first reading and its counterpart of the second one.
* `Grammar.isContained` — nothing at the end of a text reaches beyond a separator behind it.

-/

namespace SourceLint

/-! ### Texts that end at a separator -/

namespace Grammar

/-- The clause that a `where` begins ends at a brace, not with the text. -/
def whereContained (c : Cursor) : Bool :=
  !c.atKeyword "where" || c.skipToBrace.toOption.all fun later => !later.ahead.isEmpty

/-- The bracket right behind an opening brace is closed. -/
def bracketContained (c : Cursor) : Bool :=
  !(c.atSymbol "\x7b" && c.advance.atSymbol "[") || (groupLength? 0 c.advance.ahead).isSome

/-- Nothing that the lexemes of a text begin is still looked for at its end: no brace behind `where`, and
no bracket that closes a capture list. -/
def isContained (sourceStop : Nat) : List Lexeme → Bool
  | [] => true
  | lexeme :: ahead =>
    whereContained ⟨lexeme :: ahead, 0, sourceStop⟩ &&
      bracketContained ⟨lexeme :: ahead, 0, sourceStop⟩ && isContained sourceStop ahead

end Grammar

/-- How a text stands in another one: where its places are, and which lexemes follow it. If some do, then
a semicolon at the beginning of a line comes first. The places where lexemes end stay apart. -/
structure Embedding extends Relocation where
  rest : List Lexeme
  separated : rest.head?.all (fun l => l.isSymbol ";" && l.isOnNewLine) = true
  IsEnd : Nat → Prop
  offset_inj : ∀ ⦃m n : Nat⦄, IsEnd m → IsEnd n → offset m = offset n → m = n

namespace Embedding

variable {e : Embedding} {c c' d d' : Cursor} {x y : Lexeme}

/-- The second lexeme is the first one in the other text. -/
structure Twin (e : Embedding) (x y : Lexeme) : Prop extends x.Alike y where
  isApart : y.isApart = x.isApart
  renamed : y.text = e.text x.text
  start : y.start = e.offset x.start
  stop : y.stop = e.offset x.stop
  isEnd : e.IsEnd x.stop
  gap : y.gap.toList.filter (fun c => !isBlank c) = x.gap.toList.filter fun c => !isBlank c

/-- The second cursor is where the first one is, in the other text. -/
structure Beside (e : Embedding) (c c' : Cursor) : Prop where
  ahead : ∃ lexemes, List.Forall₂ e.Twin c.ahead lexemes ∧ c'.ahead = lexemes ++ e.rest
  lastStop : c'.lastStop = e.offset c.lastStop
  isEnd : e.IsEnd c.lastStop
  valid : c.Valid
  contained : e.rest = [] ∨ Grammar.isContained c.sourceStop c.ahead = true

/-- The cursors `d` and `d'` are beside each other and not before `c`. -/
def Onward (e : Embedding) (c d d' : Cursor) : Prop :=
  e.Beside d d' ∧ d.ahead.length ≤ c.ahead.length

/-- The second result is the first one in the other text, and the readings go on from `c`. -/
def Along {α β : Type} (e : Embedding) (f : α → β) (c : Cursor) (r : α × Cursor) (r' : β × Cursor) :
    Prop :=
  r'.1 = f r.1 ∧ e.Onward c r.2 r'.2

/-- The text is at its end, and something follows it in the other text. -/
def Over (e : Embedding) (c : Cursor) : Prop := e.rest ≠ [] ∧ c.ahead = []

/-! ### Twins -/

namespace Twin

theorem isPostfixOperator (h : e.Twin x y) : y.isPostfixOperator = x.isPostfixOperator :=
  h.toAlike.isPostfixOperator h.isApart

theorem span (h : e.Twin x y) : y.span = e.span x.span := by
  have hspan : ∀ l : Lexeme, l.span = .ofBounds l.start l.stop := by
    intro l
    simp [Lexeme.span, Span.ofBounds, Lexeme.stop]
  rw [hspan, hspan, h.start, h.stop, Relocation.span_ofBounds]

end Twin

/-! ### What follows the text -/

/-- Either nothing follows the text, or a semicolon on a line of its own. -/
theorem rest_cases (e : Embedding) : e.rest = [] ∨ ∃ separator others, e.rest = separator :: others ∧
    separator.isSymbol ";" = true ∧ separator.isOnNewLine = true := by
  have hseparated := e.separated
  cases hrest : e.rest with
  | nil => exact .inl rfl
  | cons separator others =>
      rw [hrest, List.head?_cons, Option.all_some, Bool.and_eq_true] at hseparated
      exact .inr ⟨separator, others, rfl, hseparated⟩

theorem peek?_of_nil (hahead : c.ahead = []) : c.peek? = none := by
  rw [Cursor.peek?, hahead, List.head?_nil]

/-- Behind the text nothing comes next, or a separator does. -/
theorem peek?_rest (hahead : c'.ahead = e.rest) : c'.peek? = none ∨ ∃ separator : Lexeme,
    c'.peek? = some separator ∧ separator.isSymbol ";" = true ∧ separator.isOnNewLine = true := by
  rw [Cursor.peek?, hahead]
  rcases e.rest_cases with hrest | ⟨separator, others, hrest, hseparator⟩
  · exact .inl (by rw [hrest, List.head?_nil])
  · exact .inr ⟨separator, by rw [hrest, List.head?_cons], hseparator⟩

/-- A test that no separator passes fails behind the text. -/
theorem next_rest (hahead : c'.ahead = e.rest) {test : Lexeme → Bool}
    (htest : ∀ separator : Lexeme, separator.isSymbol ";" = true → separator.isOnNewLine = true →
      test separator = false) : c'.next test = false := by
  rw [Cursor.next]
  rcases peek?_rest hahead with hpeek | ⟨separator, hpeek, hsemicolon, hline⟩
  · rw [hpeek, Option.any_none]
  · rw [hpeek, Option.any_some, htest separator hsemicolon hline]

/-! ### Cursors -/

/-- What comes next at two cursors beside each other. -/
inductive Meeting (e : Embedding) (c c' : Cursor) : Prop
  | finished (hahead : c.ahead = []) (hahead' : c'.ahead = e.rest)
  | both {x y : Lexeme} (hpeek : c.peek? = some x) (hpeek' : c'.peek? = some y) (htwin : e.Twin x y)
      (hnext : e.Beside c.advance c'.advance) (htaken : c.advance.ahead.length < c.ahead.length)

namespace Beside

/-- Where the text is not at its end, the twin of its next lexeme comes next in the other text. -/
theorem exists_twin {lexemes others : List Lexeme} {lastStop lastStop' sourceStop sourceStop' : Nat}
    (h : e.Beside ⟨x :: lexemes, lastStop, sourceStop⟩ ⟨others, lastStop', sourceStop'⟩) :
    ∃ y behind, others = y :: behind ∧ e.Twin x y ∧
      e.Beside ⟨lexemes, x.stop, sourceStop⟩ ⟨behind, y.stop, sourceStop'⟩ := by
  obtain ⟨⟨twins, htwins, hothers⟩, -, -, hvalid, hcontained⟩ := h
  obtain ⟨y, twins, htwin, htail, rfl⟩ := List.forall₂_cons_left_iff.1 htwins
  refine ⟨y, twins ++ e.rest, hothers, htwin, ⟨twins, htail, rfl⟩, htwin.stop, htwin.isEnd,
    hvalid.advance, ?_⟩
  rcases hcontained with hrest | hcontained
  · exact .inl hrest
  · rw [Grammar.isContained, Bool.and_eq_true] at hcontained
    exact .inr hcontained.2

theorem meeting (h : e.Beside c c') : e.Meeting c c' := by
  obtain ⟨lexemes, lastStop, sourceStop⟩ := c
  obtain ⟨others, lastStop', sourceStop'⟩ := c'
  cases lexemes with
  | nil =>
      obtain ⟨twins, htwins, hothers⟩ := h.ahead
      obtain rfl := List.forall₂_nil_left_iff.1 htwins
      exact .finished rfl hothers
  | cons x lexemes =>
      obtain ⟨y, behind, rfl, htwin, hnext⟩ := h.exists_twin
      exact .both rfl rfl htwin hnext (Nat.lt_succ_self _)

/-- A lexeme ahead ends where places stay apart. -/
theorem isEnd_of_mem (h : e.Beside c c') {x : Lexeme} (hx : x ∈ c.ahead) : e.IsEnd x.stop := by
  obtain ⟨twins, htwins, -⟩ := h.ahead
  generalize c.ahead = lexemes at hx htwins
  induction htwins with
  | nil => cases hx
  | cons htwin _ ih =>
      rcases List.mem_cons.1 hx with rfl | hx
      · exact htwin.isEnd
      · exact ih hx

/-- What follows the text comes next at its end. -/
theorem ahead_of_nil (h : e.Beside c c') (hahead : c.ahead = []) : c'.ahead = e.rest := by
  cases h.meeting with
  | finished _ hahead' => exact hahead'
  | both hpeek => simp [Cursor.peek?, hahead] at hpeek

theorem length_eq (h : e.Beside c c') : c'.ahead.length = c.ahead.length + e.rest.length := by
  obtain ⟨lexemes, htwins, hahead⟩ := h.ahead
  rw [hahead, List.length_append, htwins.length_eq]

theorem hasStalled_eq (h : e.Beside c c') (h' : e.Beside d d') : c'.hasStalled d' = c.hasStalled d := by
  rw [Cursor.hasStalled, Cursor.hasStalled, h.length_eq, h'.length_eq, Bool.eq_iff_iff, beq_iff_eq,
    beq_iff_eq, Nat.add_right_cancel_iff]

theorem advance (h : e.Beside c c') (hahead : c.ahead ≠ []) : e.Beside c.advance c'.advance := by
  cases h.meeting with
  | finished hnil => exact absurd hnil hahead
  | both _ _ _ hnext => exact hnext

theorem advanceBy (h : e.Beside c c') {n : Nat} (hn : n ≤ c.ahead.length) :
    e.Beside (c.advanceBy n) (c'.advanceBy n) := by
  induction n generalizing c c' with
  | zero => exact h
  | succ n ih =>
      cases h.meeting with
      | finished hnil => simp [hnil] at hn
      | both hpeek _ _ hnext =>
          obtain ⟨ahead, hahead⟩ := Cursor.peek?_eq_some_iff.1 hpeek
          refine ih hnext ?_
          rw [hahead, List.length_cons] at hn
          rw [Cursor.advance_of_cons hahead]
          exact Nat.le_of_succ_le_succ hn

/-- The next lexemes pass a test alike when twins do and no separator passes it. -/
theorem next_eq (h : e.Beside c c') {test : Lexeme → Bool}
    (htwins : ∀ x y, e.Twin x y → test y = test x)
    (hseparator : ∀ separator : Lexeme, separator.isSymbol ";" = true →
      separator.isOnNewLine = true → test separator = false) : c'.next test = c.next test := by
  cases h.meeting with
  | finished hahead hahead' => rw [next_rest hahead' hseparator, Cursor.next_of_nil hahead]
  | both hpeek hpeek' htwin =>
      rw [Cursor.next_of_peek? hpeek, Cursor.next_of_peek? hpeek', htwins _ _ htwin]

theorem atSymbol_eq (h : e.Beside c c') {text : String} (htext : text ≠ ";") :
    c'.atSymbol text = c.atSymbol text :=
  h.next_eq (fun _ _ htwin => htwin.isSymbol text) fun _ hsemicolon _ =>
    Grammar.isSymbol_of_semicolon hsemicolon htext

theorem atKeyword_eq (h : e.Beside c c') (word : String) : c'.atKeyword word = c.atKeyword word :=
  h.next_eq (fun _ _ htwin => htwin.isKeyword word) fun _ hsemicolon _ =>
    Grammar.isKeyword_of_semicolon hsemicolon word

/-- As long as lexemes pass a test in the text, their twins do. -/
theorem takeWhile (h : e.Beside c c') (test : Lexeme → Bool)
    (htwins : ∀ x y, e.Twin x y → test y = test x)
    (hseparator : ∀ separator : Lexeme, separator.isSymbol ";" = true →
      separator.isOnNewLine = true → test separator = false) :
    List.Forall₂ e.Twin (c.ahead.takeWhile test) (c'.ahead.takeWhile test) := by
  obtain ⟨twins, hahead, hahead'⟩ := h.ahead
  rw [hahead']
  clear hahead'
  generalize c.ahead = lexemes at hahead
  induction hahead with
  | nil =>
      rcases e.rest_cases with hrest | ⟨separator, behind, hrest, hsemicolon, hline⟩
      · rw [hrest]
        exact .nil
      · rw [hrest, List.nil_append, List.takeWhile_cons, hseparator _ hsemicolon hline]
        exact .nil
  | @cons x y lexemes others htwin _ ih =>
      rw [List.cons_append, List.takeWhile_cons, List.takeWhile_cons, htwins _ _ htwin]
      cases test x with
      | false => exact .nil
      | true => exact .cons htwin ih

theorem here_eq (h : e.Beside c c') (hahead : c.ahead ≠ []) : c'.here = e.offset c.here := by
  cases h.meeting with
  | finished hnil => exact absurd hnil hahead
  | both hpeek hpeek' htwin =>
      rw [Cursor.here_of_peek? hpeek, Cursor.here_of_peek? hpeek', htwin.start]

end Beside

/-! ### Going on -/

theorem Beside.onward (h : e.Beside c c') : e.Onward c c c' := ⟨h, Nat.le_refl _⟩

theorem Onward.trans {f f' : Cursor} (h : e.Onward c d d') (h' : e.Onward d f f') :
    e.Onward c f f' :=
  ⟨h'.1, Nat.le_trans h'.2 h.2⟩

theorem Beside.onward_advance (h : e.Beside c c') (hahead : c.ahead ≠ []) :
    e.Onward c c.advance c'.advance :=
  ⟨h.advance hahead, (Cursor.Reaches.advance c).length_le⟩

theorem ahead_ne_nil (hpeek : c.peek? = some x) : c.ahead ≠ [] := by
  obtain ⟨ahead, hahead⟩ := Cursor.peek?_eq_some_iff.1 hpeek
  rw [hahead]
  exact List.cons_ne_nil x ahead

/-- Where there is a lexeme, it is taken. -/
theorem length_advance_lt (hahead : c.ahead ≠ []) : c.advance.ahead.length < c.ahead.length := by
  obtain ⟨x, ahead, hcons⟩ := List.exists_cons_of_ne_nil hahead
  exact (Cursor.Passes.advance (Cursor.peek?_eq_some_iff.2 ⟨ahead, hcons⟩)).2

/-- A cursor with a lexeme that passes a test is not at the end. -/
theorem ahead_ne_nil_of_next {test : Lexeme → Bool} (h : c.next test = true) : c.ahead ≠ [] := by
  intro hnil
  rw [Cursor.next_of_nil hnil] at h
  exact Bool.false_ne_true h

end Embedding

/-! ### Outcomes inside a text -/

namespace Outcome

variable {α α' β β' : Type} {E : α → Prop} {F : β → Prop} {R : α → α' → Prop} {S : β → β' → Prop}
    {x : Outcome α} {y : Outcome α'} {f : α → Outcome β} {f' : α' → Outcome β'}

/-- Where the first outcome is a result that is not over, so is the second one, and they are related. -/
def FollowsUnless (E : α → Prop) (R : α → α' → Prop) (x : Outcome α) (y : Outcome α') : Prop :=
  ∀ a, x = .ok a → ¬E a → ∃ b, y = .ok b ∧ R a b

theorem Follows.unless (h : Follows R x y) : FollowsUnless E R x y := fun a ha _ => h a ha

theorem FollowsUnless.follows (h : FollowsUnless E R x y) (hnever : ∀ a, ¬E a) : Follows R x y :=
  fun a ha => h a ha (hnever a)

theorem FollowsUnless.mono {R' : α → α' → Prop} (h : FollowsUnless E R x y)
    (himp : ∀ a b, R a b → R' a b) : FollowsUnless E R' x y := by
  intro a ha hover
  obtain ⟨b, hb, hab⟩ := h a ha hover
  exact ⟨b, hb, himp a b hab⟩

/-- What is over stays so. -/
theorem FollowsUnless.bind (h : FollowsUnless E R x y) (hover : ∀ a, E a → ∀ b, f a = .ok b → F b)
    (hf : ∀ a b, R a b → FollowsUnless F S (f a) (f' b)) :
    FollowsUnless F S (x >>= f) (y >>= f') := by
  intro r hr hinside
  obtain ⟨a, ha, hr⟩ := exists_of_bind hr
  obtain ⟨b, hb, hab⟩ := h a ha fun hover' => hinside (hover a hover' r hr)
  rw [hb]
  exact hf a b hab r hr hinside

/-- What is over fails later on. -/
theorem FollowsUnless.bind_follows (h : FollowsUnless E R x y)
    (hover : ∀ a, E a → ∀ b, f a ≠ .ok b) (hf : ∀ a b, R a b → Follows S (f a) (f' b)) :
    Follows S (x >>= f) (y >>= f') :=
  (h.bind (fun a ha b hb => absurd hb (hover a ha b)) fun a b hab =>
    (hf a b hab).unless (E := fun _ => False)).follows fun _ => not_false

end Outcome

/-! ### Repetitions -/

section Rounds

variable {σ σ' β β' : Type} {S : σ → Cursor → σ' → Cursor → Prop}
    {R : β × Cursor → β' × Cursor → Prop} {round : σ → Cursor → Outcome (Round σ β × Cursor)}
    {round' : σ' → Cursor → Outcome (Round σ' β' × Cursor)}

/-- Both rounds go on in related states, or both are done. -/
def Round.Lockstep (S : σ → Cursor → σ' → Cursor → Prop) (R : β × Cursor → β' × Cursor → Prop) :
    Round σ β × Cursor → Round σ' β' × Cursor → Prop
  | (.again state, c), (.again state', c') => S state c state' c'
  | (.done result, c), (.done result', c') => R (result, c) (result', c')
  | _, _ => False

/-- A repetition has a result when its first round is done, or when that round goes on and the rounds
behind it have the result. -/
theorem boundedRounds_eq_ok_iff {bound : List Lexeme} {state : σ} {c : Cursor} {r : β × Cursor} :
    boundedRounds round bound state c = .ok r ↔
      round state c = .ok (.done r.1, r.2) ∨
        ∃ lexeme others s later, bound = lexeme :: others ∧ round state c = .ok (.again s, later) ∧
          boundedRounds round others s later = .ok r := by
  rw [boundedRounds.eq_def]
  cases round state c with
  | error failure => simp
  | ok result =>
      obtain ⟨s | b, later⟩ := result
      · cases bound with
        | nil => simp
        | cons lexeme others => simp
      · simp [Prod.ext_iff]

/-- A repetition has the same result when more rounds are allowed. -/
theorem boundedRounds_mono {bound bound' : List Lexeme} {state : σ} {c : Cursor} {r : β × Cursor}
    (h : boundedRounds round bound state c = .ok r) (hbound : bound.length ≤ bound'.length) :
    boundedRounds round bound' state c = .ok r := by
  induction bound generalizing state c bound' with
  | nil =>
      obtain hdone | ⟨_, _, _, _, hnil, -⟩ := boundedRounds_eq_ok_iff.1 h
      · exact boundedRounds_eq_ok_iff.2 (.inl hdone)
      · cases hnil
  | cons lexeme bound ih =>
      obtain hdone | ⟨_, _, s, later, hcons, hagain, hlater⟩ := boundedRounds_eq_ok_iff.1 h
      · exact boundedRounds_eq_ok_iff.2 (.inl hdone)
      · obtain ⟨-, rfl⟩ := List.cons.inj hcons
        cases bound' with
        | nil => exact absurd hbound (Nat.not_succ_le_zero _)
        | cons lexeme' bound' =>
            have hmore := ih hlater (Nat.le_of_succ_le_succ hbound)
            exact boundedRounds_eq_ok_iff.2 (.inr ⟨_, _, _, _, rfl, hagain, hmore⟩)

/-- What stays so in each round, stays so in a repetition. -/
theorem boundedRounds_stays {E : Cursor → Prop}
    (hstays : ∀ s c r, E c → round s c = .ok r → E r.2) {bound : List Lexeme} {state : σ} {c : Cursor}
    {r : β × Cursor} (hc : E c) (hr : boundedRounds round bound state c = .ok r) : E r.2 := by
  induction bound generalizing state c with
  | nil =>
      obtain hdone | ⟨_, _, _, _, hbound, -⟩ := boundedRounds_eq_ok_iff.1 hr
      · exact hstays _ _ _ hc hdone
      · cases hbound
  | cons lexeme bound ih =>
      obtain hdone | ⟨_, _, s, later, hbound, hagain, hlater⟩ := boundedRounds_eq_ok_iff.1 hr
      · exact hstays _ _ _ hc hdone
      · obtain ⟨-, rfl⟩ := List.cons.inj hbound
        exact ih (hstays _ _ _ hc hagain) hlater

/-- A repetition follows another one when its rounds do, until it is over. -/
theorem followsUnless_boundedRounds {E : Cursor → Prop} {bound bound' : List Lexeme}
    {state : σ} {c : Cursor} {state' : σ'} {c' : Cursor}
    (hround : ∀ s c s' c', S s c s' c' →
      Outcome.FollowsUnless (fun r => E r.2) (Round.Lockstep S R) (round s c) (round' s' c'))
    (hstays : ∀ s c r, E c → round s c = .ok r → E r.2)
    (hbound : bound.length ≤ bound'.length) (h : S state c state' c') :
    Outcome.FollowsUnless (fun r => E r.2) R (boundedRounds round bound state c)
      (boundedRounds round' bound' state' c') := by
  intro r hr hinside
  induction bound generalizing state c state' c' bound' with
  | nil =>
      obtain hdone | ⟨_, _, _, _, hnil, -⟩ := boundedRounds_eq_ok_iff.1 hr
      · obtain ⟨⟨s' | b', later'⟩, hdone', hpair⟩ := hround _ _ _ _ h _ hdone hinside
        · exact hpair.elim
        · exact ⟨(b', later'), boundedRounds_eq_ok_iff.2 (.inl hdone'), hpair⟩
      · cases hnil
  | cons lexeme bound ih =>
      obtain hdone | ⟨_, _, s, later, hcons, hagain, hlater⟩ := boundedRounds_eq_ok_iff.1 hr
      · obtain ⟨⟨s' | b', later'⟩, hdone', hpair⟩ := hround _ _ _ _ h _ hdone hinside
        · exact hpair.elim
        · exact ⟨(b', later'), boundedRounds_eq_ok_iff.2 (.inl hdone'), hpair⟩
      · obtain ⟨-, rfl⟩ := List.cons.inj hcons
        -- were the first repetition over here, its result would be as well
        have hnotOver : ¬E later := fun hover => hinside (boundedRounds_stays hstays hover hlater)
        obtain ⟨⟨s' | b', later'⟩, hagain', hpair⟩ := hround _ _ _ _ h _ hagain hnotOver
        · cases bound' with
          | nil => exact absurd hbound (Nat.not_succ_le_zero _)
          | cons lexeme' bound' =>
              obtain ⟨r', hr', hrelated⟩ := ih (Nat.le_of_succ_le_succ hbound) hpair hlater
              exact ⟨r', boundedRounds_eq_ok_iff.2 (.inr ⟨_, _, _, _, rfl, hagain', hr'⟩), hrelated⟩
        · exact hpair.elim

end Rounds

namespace Embedding.Beside

variable {e : Embedding} {c c' : Cursor} {σ σ' β β' : Type} {S : σ → Cursor → σ' → Cursor → Prop}
    {R : β × Cursor → β' × Cursor → Prop} {round : σ → Cursor → Outcome (Round σ β × Cursor)}
    {round' : σ' → Cursor → Outcome (Round σ' β' × Cursor)} {state : σ} {state' : σ'}

/-- A repetition follows another one inside the text when its rounds do. -/
theorem followsUnless_repeatRounds (h : e.Beside c c')
    (hround : ∀ s c s' c', S s c s' c' →
      Outcome.FollowsUnless (fun r => e.Over r.2) (Round.Lockstep S R) (round s c) (round' s' c'))
    (hstays : ∀ s c r, c.ahead = [] → round s c = .ok r → r.2.ahead = [])
    (hstate : S state c state' c') :
    Outcome.FollowsUnless (fun r => e.Over r.2) R (repeatRounds round state c)
      (repeatRounds round' state' c') :=
  followsUnless_boundedRounds hround (fun s c r hover hr => ⟨hover.1, hstays s c r hover.2 hr⟩)
    (Nat.le.intro h.length_eq.symm) hstate

/-- A repetition follows another one when its rounds do. -/
theorem follows_repeatRounds (h : e.Beside c c')
    (hround : ∀ s c s' c', S s c s' c' →
      Outcome.Follows (Round.Lockstep S R) (round s c) (round' s' c'))
    (hstate : S state c state' c') :
    Outcome.Follows R (repeatRounds round state c) (repeatRounds round' state' c') :=
  (followsUnless_boundedRounds (E := fun _ => False)
    (fun s c s' c' hs => (hround s c s' c' hs).unless) (fun _ _ _ hover => hover.elim)
    (Nat.le.intro h.length_eq.symm) hstate).follows fun _ => not_false

end Embedding.Beside

namespace Embedding

variable {e : Embedding} {c c' : Cursor} {σ σ' β β' : Type} {f : σ → σ'}
    {R : β × Cursor → β' × Cursor → Prop} {round : σ → Cursor → Outcome (Round σ β × Cursor)}
    {round' : σ' → Cursor → Outcome (Round σ' β' × Cursor)}

/-- Both rounds go on from `c` in the same state of the two texts, or both are done. -/
def Steps (e : Embedding) (f : σ → σ') (R : β × Cursor → β' × Cursor → Prop) (c : Cursor) :
    Round σ β × Cursor → Round σ' β' × Cursor → Prop :=
  Round.Lockstep (fun s d s' d' => s' = f s ∧ e.Onward c d d') R

theorem Beside.follows_rounds (h : e.Beside c c') (state : σ)
    (hround : ∀ s d d', e.Onward c d d' →
      Outcome.Follows (e.Steps f R c) (round s d) (round' (f s) d')) :
    Outcome.Follows R (repeatRounds round state c) (repeatRounds round' (f state) c') := by
  refine h.follows_repeatRounds (S := fun s d s' d' => s' = f s ∧ e.Onward c d d') ?_ ⟨rfl, h.onward⟩
  rintro s d s' d' ⟨rfl, honward⟩
  exact hround s d d' honward

end Embedding

end SourceLint
