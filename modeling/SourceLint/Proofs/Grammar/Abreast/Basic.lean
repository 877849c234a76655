import SourceLint.Proofs.Grammar.Harmless
import SourceLint.Proofs.Grammar.Reading

/-!
# Two readings side by side

A text is read once with some semicolons and once without them. The second reading follows the first
one: where the first one has a result, so has the second one, and the results are related. Both
stand at cursors that are abreast, which means that the lexemes ahead are the same but for
semicolons that go and for blanks around commas.

## Implementation notes

Semicolons go one at a time, so a cursor of the first reading may stand before a semicolon that goes
while the other one stands at the lexeme behind it already. A repetition of the first reading may
therefore have a round that the second one has not; `follows_repeatRounds` allows for that.
-/

namespace SourceLint

/-! ### Outcomes -/

namespace Outcome

variable {α α' β β' : Type} {R : α → α' → Prop} {x : Outcome α} {y : Outcome α'}

/-- Where the first outcome is a result, so is the second one, and they are related. -/
def Follows (R : α → α' → Prop) (x : Outcome α) (y : Outcome α') : Prop :=
  ∀ a, x = .ok a → ∃ b, y = .ok b ∧ R a b

theorem Follows.ok {a : α} {b : α'} (h : R a b) : Follows R (.ok a) (.ok b) := by
  rintro _ ⟨⟩
  exact ⟨b, rfl, h⟩

theorem follows_error (failure : Failure) : Follows R (.error failure) y := by
  rintro _ ⟨⟩

theorem Follows.mono {S : α → α' → Prop} (h : Follows R x y) (himp : ∀ a b, R a b → S a b) :
    Follows S x y := by
  intro a ha
  obtain ⟨b, hb, hab⟩ := h a ha
  exact ⟨b, hb, himp a b hab⟩

theorem Follows.bind {S : β → β' → Prop} {f : α → Outcome β} {f' : α' → Outcome β'}
    (h : Follows R x y) (hf : ∀ a b, R a b → Follows S (f a) (f' b)) :
    Follows S (x >>= f) (y >>= f') := by
  intro r hr
  cases hx : x with
  | error failure =>
      rw [hx] at hr
      cases hr
  | ok a =>
      rw [hx] at hr
      obtain ⟨b, hb, hab⟩ := h a hx
      rw [hb]
      exact hf a b hab r hr

/-- What the outcomes are. -/
theorem Follows.and_eq (h : Follows R x y) :
    Follows (fun a b => R a b ∧ x = .ok a ∧ y = .ok b) x y := by
  intro a ha
  obtain ⟨b, hb, hab⟩ := h a ha
  exact ⟨b, hb, hab, ha, hb⟩

/-- What is known of each outcome alone. -/
theorem Follows.meets {P : α → Prop} {Q : α' → Prop} (h : Follows R x y) (hx : x.Meets P)
    (hy : y.Meets Q) : Follows (fun a b => R a b ∧ P a ∧ Q b) x y := by
  intro a ha
  obtain ⟨b, hb, hab⟩ := h a ha
  rw [ha] at hx
  rw [hb] at hy
  exact ⟨b, hb, hab, hx, hy⟩

end Outcome

/-! ### Repetitions -/

section Rounds

variable {σ σ' β β' : Type} {S : σ → Cursor → σ' → Cursor → Prop} {R : β × Cursor → β' × Cursor → Prop}

/-- Both rounds go on in related states, the second one with a lexeme taken, or both are done. -/
def Round.Pair (S : σ → Cursor → σ' → Cursor → Prop) (R : β × Cursor → β' × Cursor → Prop)
    (c' : Cursor) : Round σ β × Cursor → Round σ' β' × Cursor → Prop
  | (.again state, c₁), (.again state', c₁') =>
    S state c₁ state' c₁' ∧ c₁'.ahead.length < c'.ahead.length
  | (.done result, c₁), (.done result', c₁') => R (result, c₁) (result', c₁')
  | _, _ => False

/-- What is known of each round alone. -/
theorem Outcome.Follows.keeps {x : Outcome (Round σ β × Cursor)} {y : Outcome (Round σ' β' × Cursor)}
    {c' : Cursor} {I : σ → Cursor → Prop} {Q : β → Cursor → Prop} {I' : σ' → Cursor → Prop}
    {Q' : β' → Cursor → Prop} (h : Outcome.Follows (Round.Pair S R c') x y)
    (hx : x.Meets (Round.Keeps I Q)) (hy : y.Meets (Round.Keeps I' Q')) :
    Outcome.Follows
      (Round.Pair (fun state c₁ state' c₁' => S state c₁ state' c₁' ∧ I state c₁ ∧
        I' state' c₁') R c') x y := by
  refine (h.meets hx hy).mono ?_
  rintro ⟨state | result, c₁⟩ ⟨state' | result', c₁'⟩ ⟨hpair, hkeeps, hkeeps'⟩
  · exact ⟨⟨hpair.1, hkeeps, hkeeps'⟩, hpair.2⟩
  · exact hpair
  · exact hpair
  · exact hpair

theorem follows_boundedRounds {round : σ → Cursor → Outcome (Round σ β × Cursor)}
    {round' : σ' → Cursor → Outcome (Round σ' β' × Cursor)} (bound : List Lexeme)
    {bound' : List Lexeme} {state : σ} {c : Cursor} {state' : σ'} {c' : Cursor}
    (hround : ∀ s c₁ s' c₁', (s, c₁) ∈ roundsThrough round bound state c → S s c₁ s' c₁' →
      (∃ s₂ c₂, round s c₁ = .ok (.again s₂, c₂) ∧ S s₂ c₂ s' c₁') ∨
        Outcome.Follows (Round.Pair S R c₁') (round s c₁) (round' s' c₁'))
    (hbound : c'.ahead.length ≤ bound'.length) (h : S state c state' c') :
    Outcome.Follows R (boundedRounds round bound state c) (boundedRounds round' bound' state' c') := by
  -- a round that the first repetition has alone uses up its bound but not that of the second one, and
  -- a round of both takes a lexeme from the second cursor, so the second bound suffices all along
  induction bound generalizing state c state' c' bound' with
  | nil =>
      have hfirst : (state, c) ∈ roundsThrough round [] state c := List.mem_singleton.2 rfl
      rw [boundedRounds.eq_def round]
      rcases hround _ _ _ _ hfirst h with ⟨s, c₁, hagain, -⟩ | hfollows
      · rw [hagain]
        exact Outcome.follows_error _
      · cases hr : round state c with
        | error failure => exact Outcome.follows_error failure
        | ok r =>
            obtain ⟨r', hr', hpair⟩ := hfollows r hr
            obtain ⟨s | result, c₁⟩ := r
            · exact Outcome.follows_error _
            · obtain ⟨s' | result', c₁'⟩ := r'
              · exact hpair.elim
              · rw [boundedRounds.eq_def, hr']
                exact .ok hpair
  | cons lexeme bound ih =>
      have hfirst : (state, c) ∈ roundsThrough round (lexeme :: bound) state c := by
        rw [roundsThrough]
        exact List.mem_cons_self
      have hlater : ∀ s c₁, round state c = .ok (.again s, c₁) →
          ∀ place, place ∈ roundsThrough round bound s c₁ →
            place ∈ roundsThrough round (lexeme :: bound) state c := by
        intro s c₁ hagain place hplace
        rw [roundsThrough, hagain]
        exact List.mem_cons_of_mem _ hplace
      rw [boundedRounds.eq_def round]
      rcases hround _ _ _ _ hfirst h with ⟨s, c₁, hagain, hstate⟩ | hfollows
      · rw [hagain]
        exact ih (fun _ _ _ _ hplace => hround _ _ _ _ (hlater _ _ hagain _ hplace)) hbound hstate
      · cases hr : round state c with
        | error failure => exact Outcome.follows_error failure
        | ok r =>
            obtain ⟨r', hr', hpair⟩ := hfollows r hr
            obtain ⟨s | result, c₁⟩ := r
            · obtain ⟨s' | result', c₁'⟩ := r'
              · obtain ⟨hstate, htaken⟩ := hpair
                rw [boundedRounds.eq_def round', hr']
                cases bound' with
                | nil => exact absurd (Nat.lt_of_lt_of_le htaken hbound) (Nat.not_lt_zero _)
                | cons lexeme' bound' =>
                    refine ih (fun _ _ _ _ hplace => hround _ _ _ _ (hlater _ _ hr _ hplace)) ?_ hstate
                    rw [List.length_cons] at hbound
                    omega
              · exact hpair.elim
            · obtain ⟨s' | result', c₁'⟩ := r'
              · exact hpair.elim
              · rw [boundedRounds.eq_def, hr']
                exact .ok hpair

/-- A repetition follows another one when each of its rounds does, or the round of the other one takes
nothing but a semicolon that goes. -/
theorem follows_repeatRounds {round : σ → Cursor → Outcome (Round σ β × Cursor)}
    {round' : σ' → Cursor → Outcome (Round σ' β' × Cursor)} {state : σ} {c : Cursor} {state' : σ'}
    {c' : Cursor}
    (hround : ∀ s c₁ s' c₁', (s, c₁) ∈ roundsThrough round c.ahead state c → S s c₁ s' c₁' →
      (∃ s₂ c₂, round s c₁ = .ok (.again s₂, c₂) ∧ S s₂ c₂ s' c₁') ∨
        Outcome.Follows (Round.Pair S R c₁') (round s c₁) (round' s' c₁'))
    (h : S state c state' c') :
    Outcome.Follows R (repeatRounds round state c) (repeatRounds round' state' c') :=
  follows_boundedRounds c.ahead hround (Nat.le_refl _) h

end Rounds

/-! ### The next lexeme -/

namespace Cursor

variable {c : Cursor} {x : Lexeme} {test : Lexeme → Bool}

theorem next_of_peek? (h : c.peek? = some x) : c.next test = test x := by
  rw [next, h, Option.any_some]

theorem next_of_nil (h : c.ahead = []) : c.next test = false := by
  rw [next, peek?, h]
  rfl

/-- The second lexeme ahead comes next behind the first one. -/
theorem peekAt?_one (h : c.peek? = some x) : c.peekAt? 1 = c.advance.peek? := by
  obtain ⟨ahead, hahead⟩ := peek?_eq_some_iff.1 h
  rw [peekAt?, advance_of_cons hahead, peek?, hahead, List.getElem?_cons_succ, List.head?_eq_getElem?]

theorem peekAt?_two {y : Lexeme} (h : c.peek? = some x) (h' : c.advance.peek? = some y) :
    c.peekAt? 2 = c.advance.advance.peek? := by
  obtain ⟨ahead, hahead⟩ := peek?_eq_some_iff.1 h
  rw [advance_of_cons hahead] at h' ⊢
  rw [← peekAt?_one h', peekAt?, peekAt?, hahead, List.getElem?_cons_succ]

/-- No lexeme has been taken where a reading has stalled. -/
theorem Reaches.eq_of_hasStalled {later : Cursor} (h : c.Reaches later) (hpeek : c.peek? = some x)
    (hstalled : c.hasStalled later = true) : later = c := by
  obtain ⟨n, rfl⟩ := h
  obtain ⟨ahead, hahead⟩ := peek?_eq_some_iff.1 hpeek
  rw [hasStalled, ahead_advanceBy, hahead, List.length_drop, List.length_cons, beq_iff_eq] at hstalled
  have hn : n = 0 := by omega
  rw [hn]
  rfl

end Cursor

end SourceLint
