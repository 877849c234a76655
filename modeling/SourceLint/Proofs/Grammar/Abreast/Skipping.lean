import Mathlib.Data.List.Forall2
import SourceLint.Proofs.Grammar.Abreast.Cursors

/-!
# Skipping side by side

What steps over lexemes from one of two cursors that are abreast steps over the same ones from the
other, but for semicolons that go, and stops at cursors that are abreast.

## Implementation notes

A type ends with its line unless another part has to follow, and right before another part no
semicolon goes; so the rounds of a type go abreast. They ask whether an angle bracket or a mark
stands right behind the last lexeme, which may change behind a comma. Types behind commas are
therefore read only where neither comes next.
-/

namespace SourceLint.Grammar

variable {gone : Lexeme → Bool} {levels : Nat} {before lexemes others : List Lexeme} {c c' : Cursor}
    {x y : Lexeme}

/-! ### Groups -/

/-- The test does not tell a lexeme from one that is alike, and where it stops at a semicolon it
stops at the beginning of each line, too. -/
structure StopsAlike (stop : Lexeme → Bool) : Prop where
  alike : ∀ x y : Lexeme, x.Alike y → stop y = stop x
  line : ∀ x y : Lexeme, x.isSymbol ";" = true → stop x = true → y.isOnNewLine = true → stop y = true

theorem stopsAlike_true : StopsAlike fun _ => true := ⟨fun _ _ _ => rfl, fun _ _ _ _ _ => rfl⟩

section Lists

variable {sourceStop sourceStop' lastStop lastStop' : Nat}

theorem Abreast.tail_keep
    (h : Abreast gone levels before ⟨x :: lexemes, lastStop, sourceStop⟩
      ⟨y :: others, lastStop', sourceStop'⟩) (hgone : gone x = false) :
    Abreast gone levels (x :: before) ⟨lexemes, x.stop, sourceStop⟩ ⟨others, y.stop, sourceStop'⟩ := by
  obtain ⟨_, hkept⟩ := h.kept rfl hgone
  exact hkept.later

theorem Abreast.tail_drop
    (h : Abreast gone levels before ⟨x :: lexemes, lastStop, sourceStop⟩
      ⟨others, lastStop', sourceStop'⟩) (hgone : gone x = true) :
    Abreast gone levels (x :: before) ⟨lexemes, x.stop, sourceStop⟩
      ⟨others, lastStop', sourceStop'⟩ := by
  cases h.meeting with
  | finished hahead => cases hahead
  | kept hkept =>
      obtain rfl := Option.some.inj hkept.peek
      exact absurd (hkept.stays.symm.trans hgone) Bool.false_ne_true
  | dropped hdropped =>
      obtain rfl := Option.some.inj hdropped.peek
      exact hdropped.later

theorem Onward.tail_keep {later later' : Cursor}
    (h : Onward gone levels ⟨lexemes, x.stop, sourceStop⟩ ⟨others, y.stop, sourceStop'⟩ later later') :
    Onward gone levels ⟨x :: lexemes, lastStop, sourceStop⟩
      ⟨y :: others, lastStop', sourceStop'⟩ later later' :=
  ⟨h.abreast, h.reaches.cons, h.reaches'.cons⟩

theorem Onward.tail_drop {later later' : Cursor}
    (h : Onward gone levels ⟨lexemes, x.stop, sourceStop⟩
      ⟨others, lastStop', sourceStop'⟩ later later') :
    Onward gone levels ⟨x :: lexemes, lastStop, sourceStop⟩
      ⟨others, lastStop', sourceStop'⟩ later later' :=
  ⟨h.abreast, h.reaches.cons, h.reaches'⟩

/-- Nothing is skipped when the test stops at once. -/
theorem skipOpen_of_head? {stop : Lexeme → Bool} (h : lexemes.head?.all stop = true) :
    Cursor.skipOpen stop sourceStop [] lastStop lexemes = .ok ⟨lexemes, lastStop, sourceStop⟩ := by
  cases lexemes with
  | nil => rfl
  | cons x lexemes =>
      rw [List.head?_cons, Option.all_some] at h
      rw [Cursor.skipOpen, h, List.isEmpty_nil, Bool.and_self, if_pos rfl]

/-- Two readings that skip end at cursors that are abreast, where the next lexemes stand apart alike if
every lexeme passes the test. -/
def SkipEnd (gone : Lexeme → Bool) (levels : Nat) (stop : Lexeme → Bool) (c c' later later' : Cursor) :
    Prop :=
  Onward gone levels c c' later later' ∧ ((∀ x, stop x = true) → Spaced gone later later')

/-- Both readings skip alike from two cursors on. -/
def SkipsAlike (gone : Lexeme → Bool) (levels : Nat) (stop : Lexeme → Bool) (c c' : Cursor) : Prop :=
  ∀ ⦃opens opens' : List Lexeme⦄, List.Forall₂ Lexeme.Alike opens opens' →
    ((∀ x, stop x = true) → opens = [] → Spaced gone c c') →
    Outcome.Follows (SkipEnd gone levels stop c c')
      (Cursor.skipOpen stop c.sourceStop opens c.lastStop c.ahead)
      (Cursor.skipOpen stop c'.sourceStop opens' c'.lastStop c'.ahead)

variable {stop : Lexeme → Bool} {opens opens' : List Lexeme}

theorem not_comma_of_isCloser (h : x.isCloser = true) : x.isSymbol "," = false := by
  simp only [Lexeme.isCloser, Bool.or_eq_true, Lexeme.isSymbol_iff] at h
  rcases h with (⟨-, htext⟩ | ⟨-, htext⟩) | ⟨-, htext⟩
  all_goals simp [Lexeme.isSymbol, htext]

/-- At a lexeme that stays both stop, or both take it. -/
theorem SkipsAlike.keep
    (ih : SkipsAlike gone levels stop ⟨lexemes, x.stop, sourceStop⟩ ⟨others, y.stop, sourceStop'⟩)
    (hstop : StopsAlike stop)
    (h : Abreast gone levels before ⟨x :: lexemes, lastStop, sourceStop⟩
      ⟨y :: others, lastStop', sourceStop'⟩)
    (hgone : gone x = false) (halike : x.Alike y) :
    SkipsAlike gone levels stop ⟨x :: lexemes, lastStop, sourceStop⟩
      ⟨y :: others, lastStop', sourceStop'⟩ := by
  intro opens opens' hopens hspaced
  have hnext : ∀ {opens opens' : List Lexeme}, List.Forall₂ Lexeme.Alike opens opens' →
      ((∀ x, stop x = true) → opens = [] → x.isSymbol "," = false) →
      Outcome.Follows
        (SkipEnd gone levels stop ⟨x :: lexemes, lastStop, sourceStop⟩
          ⟨y :: others, lastStop', sourceStop'⟩)
        (Cursor.skipOpen stop sourceStop opens x.stop lexemes)
        (Cursor.skipOpen stop sourceStop' opens' y.stop others) := by
    intro opens opens' hopens hcomma
    refine (ih hopens fun hall hnil => (h.tail_keep hgone).spaced ?_).mono
      fun _ _ hlater => ⟨hlater.1.tail_keep, hlater.2⟩
    simpa using hcomma hall hnil
  have hempty : opens'.isEmpty = opens.isEmpty := by cases hopens <;> rfl
  dsimp only
  rw [Cursor.skipOpen.eq_def _ _ opens, Cursor.skipOpen.eq_def _ _ opens']
  dsimp only
  rw [hempty, hstop.alike x y halike, halike.isOpener, halike.isCloser]
  by_cases hstops : (opens.isEmpty && stop x) = true
  · rw [if_pos hstops, if_pos hstops]
    rw [Bool.and_eq_true, List.isEmpty_iff] at hstops
    exact .ok ⟨.refl h, fun hall => hspaced hall hstops.1⟩
  · rw [if_neg hstops, if_neg hstops]
    have hnonempty : (∀ x, stop x = true) → opens ≠ [] := by
      rintro hall rfl
      exact hstops (by rw [hall x]; rfl)
    by_cases hopener : x.isOpener = true
    · rw [if_pos hopener, if_pos hopener]
      exact hnext (.cons halike hopens) fun _ hnil => absurd hnil (List.cons_ne_nil _ _)
    · rw [if_neg hopener, if_neg hopener]
      by_cases hcloser : x.isCloser = true
      · rw [if_pos hcloser, if_pos hcloser]
        cases hopens with
        | nil => exact Outcome.follows_error _
        | cons hopener' hrest =>
            dsimp only
            rw [halike.closes hopener']
            split
            · exact hnext hrest fun _ _ => not_comma_of_isCloser hcloser
            · exact Outcome.follows_error _
      · rw [if_neg hcloser, if_neg hcloser]
        exact hnext hopens fun hall hnil => absurd hnil (hnonempty hall)

/-- At a semicolon that goes the one reading takes it, or stops where the other one does, too. -/
theorem SkipsAlike.drop
    (ih : SkipsAlike gone levels stop ⟨lexemes, x.stop, sourceStop⟩ ⟨others, lastStop', sourceStop'⟩)
    (hstop : StopsAlike stop)
    (h : Abreast gone levels before ⟨x :: lexemes, lastStop, sourceStop⟩
      ⟨others, lastStop', sourceStop'⟩)
    (hsemicolon : x.isSymbol ";" = true) (hline : others.head?.all Lexeme.isOnNewLine = true) :
    SkipsAlike gone levels stop ⟨x :: lexemes, lastStop, sourceStop⟩
      ⟨others, lastStop', sourceStop'⟩ := by
  intro opens opens' hopens hspaced
  have hplain : x.isOpener = false ∧ x.isCloser = false := by
    simp only [Lexeme.isOpener, Lexeme.isCloser]
    simp [isSymbol_of_semicolon hsemicolon]
  dsimp only
  rw [Cursor.skipOpen.eq_def _ _ opens]
  dsimp only
  by_cases hstops : (opens.isEmpty && stop x) = true
  · rw [if_pos hstops]
    rw [Bool.and_eq_true, List.isEmpty_iff] at hstops
    obtain ⟨rfl, hx⟩ := hstops
    cases hopens
    have hothers : others.head?.all stop = true := by
      cases others with
      | nil => rfl
      | cons y others => exact hstop.line x y hsemicolon hx hline
    rw [skipOpen_of_head? hothers]
    exact .ok ⟨.refl h, fun hall => hspaced hall rfl⟩
  · rw [if_neg hstops, hplain.1, if_neg Bool.false_ne_true, hplain.2, if_neg Bool.false_ne_true]
    refine (ih hopens fun hall hnil => ?_).mono fun _ _ hlater => ⟨hlater.1.tail_drop, hlater.2⟩
    exact absurd (by rw [hnil, hall x]; rfl) hstops

/-- Both skip the same groups, and what stands between them and the lexeme that passes the test. -/
theorem follows_skipOpen (hstop : StopsAlike stop) (hthinned : Thinned gone before lexemes others)
    (h : Abreast gone levels before ⟨lexemes, lastStop, sourceStop⟩
      ⟨others, lastStop', sourceStop'⟩) :
    SkipsAlike gone levels stop ⟨lexemes, lastStop, sourceStop⟩ ⟨others, lastStop', sourceStop'⟩ := by
  induction hthinned generalizing lastStop lastStop' with
  | nil =>
      intro opens opens' hopens hspaced
      cases hopens with
      | nil => exact .ok ⟨.refl h, fun hall => hspaced hall rfl⟩
      | @cons opener opener' opens opens' hopener hrest =>
          have hsome : (opener :: opens).getLast? = some
            ((opener :: opens).getLast (List.cons_ne_nil _ _)) :=
            List.getLast?_eq_some_getLast _
          dsimp only
          rw [Cursor.skipOpen.eq_def, hsome]
          exact Outcome.follows_error _
  | keep hgone halike hapart hrest ih => exact (ih (h.tail_keep hgone)).keep hstop h hgone halike
  | drop hgone hsemicolon hline hrest ih => exact (ih (h.tail_drop hgone)).drop hstop h hsemicolon hline

end Lists

theorem follows_skipUntil {stop : Lexeme → Bool} (hstop : StopsAlike stop)
    (h : Abreast gone levels before c c') :
    Outcome.Follows (Onward gone levels c c') (c.skipUntil stop) (c'.skipUntil stop) := by
  by_cases hall : ∀ x, stop x = true
  · have hhead : ∀ lexemes : List Lexeme, lexemes.head?.all stop = true := by
      rintro (_ | ⟨x, lexemes⟩)
      · rfl
      · exact hall x
    rw [Cursor.skipUntil, Cursor.skipUntil, skipOpen_of_head? (hhead _), skipOpen_of_head? (hhead _)]
    exact .ok (.refl h)
  · exact (follows_skipOpen hstop h.thinned h .nil fun hall' => absurd hall' hall).mono
      fun _ _ hlater => hlater.1

theorem Kept.follows_skipGroup (h : Kept gone levels before c c' x y) :
    Outcome.Follows (fun later later' =>
        Onward gone levels c.advance c'.advance later later' ∧ Spaced gone later later')
      c.skipGroup c'.skipGroup := by
  obtain ⟨ahead, hahead⟩ := Cursor.peek?_eq_some_iff.1 h.peek
  obtain ⟨ahead', hahead'⟩ := Cursor.peek?_eq_some_iff.1 h.peek'
  have hlater := h.later
  rw [Cursor.advance_of_cons hahead, Cursor.advance_of_cons hahead'] at hlater ⊢
  rw [Cursor.skipGroup, Cursor.skipGroup, hahead, hahead']
  refine (follows_skipOpen stopsAlike_true hlater.thinned hlater (.cons h.alike .nil) ?_).mono ?_
  · exact fun _ hnil => absurd hnil (List.cons_ne_nil _ _)
  · exact fun _ _ hgroup => ⟨hgroup.1, hgroup.2 fun _ => rfl⟩

/-- A group right behind the last lexeme. -/
theorem Abreast.follows_skipAttachedGroup (h : Abreast gone levels before c c')
    (hspaced : Spaced gone c c') :
    Outcome.Follows (Onward gone levels c c') c.skipAttachedGroup c'.skipAttachedGroup := by
  have hnext : c'.next (fun l => l.isSymbol "(" && !l.isApart) = c.next fun l =>
    l.isSymbol "(" && !l.isApart := by
    refine h.next_attached_eq hspaced (fun x y halike hapart => ?_)
      (fun x hapart => ?_) fun x hsymbol => ?_
    · rw [halike.isSymbol, hapart]
    · rw [hapart, Bool.not_true, Bool.and_false]
    · rcases hsymbol with hsymbol | hsymbol
      all_goals simp [Lexeme.isSymbol, (Lexeme.isSymbol_iff.1 hsymbol).2]
  rw [Cursor.skipAttachedGroup, Cursor.skipAttachedGroup, hnext]
  cases hopens : c.next fun l => l.isSymbol "(" && !l.isApart with
  | false => exact .ok (.refl h)
  | true =>
      obtain ⟨x, y, hkept, -⟩ := h.kept_of_next hopens fun x hsemicolon => by
        rw [isSymbol_of_semicolon hsemicolon (by decide), Bool.false_and]
      exact hkept.follows_skipGroup.mono fun _ _ hgroup => hkept.onward.trans hgroup.1

theorem Abreast.follows_skipToBrace (h : Abreast gone levels before c c') :
    Outcome.Follows (Onward gone levels c c') c.skipToBrace c'.skipToBrace := by
  refine follows_skipUntil ⟨fun x y halike => ?_, fun x _ hsemicolon hstop => ?_⟩ h
  · rw [halike.isSymbol, halike.isCloser]
  · simp [Lexeme.isCloser, isSymbol_of_semicolon hsemicolon] at hstop

/-- The line ends before a semicolon that goes, and without the semicolon it ends just there. -/
theorem Kept.follows_skipLine (h : Kept gone levels before c c' x y) :
    Outcome.Follows (Onward gone levels c c') c.skipLine c'.skipLine := by
  refine (follows_skipUntil ⟨fun x y halike => ?_, fun x y _ _ hline => ?_⟩ h.later).mono
    fun _ _ hlater => h.onward.trans hlater
  · rw [halike.isSymbol, halike.isCloser, halike.isOnNewLine]
  · rw [hline, Bool.true_or, Bool.true_or]

theorem Abreast.follows_skipCasePattern (h : Abreast gone levels before c c') :
    Outcome.Follows (Onward gone levels c c') c.skipCasePattern c'.skipCasePattern := by
  refine (follows_skipUntil ⟨fun x y halike => ?_, fun x _ hsemicolon hstop => ?_⟩ h).bind
    fun later later' hlater => ?_
  · rw [halike.isSymbol, halike.isSymbol, halike.isCloser]
  · simp [Lexeme.isCloser, isSymbol_of_semicolon hsemicolon] at hstop
  · obtain ⟨_, habreast⟩ := hlater.abreast
    rw [habreast.atSymbol_eq (by decide)]
    cases hcolon : later.atSymbol ":" with
    | false => exact Outcome.follows_error _
    | true =>
        obtain ⟨x, y, hkept, -⟩ := habreast.kept_of_atSymbol hcolon (by decide)
        exact .ok (hlater.trans hkept.onward)

/-! ### Generic parameters -/

/-- What a type asks of the next lexeme has the same answer at both cursors: whether it is an angle
bracket or a mark right behind the last lexeme. -/
structure TypeSpaced (c c' : Cursor) : Prop where
  angle : c'.next isAttachedAngle = c.next isAttachedAngle
  mark : c'.next Lexeme.isPostfixOperator = c.next Lexeme.isPostfixOperator

theorem isAngle_of_symbol (h : x.isSymbol "," = true ∨ x.isSymbol ";" = true) : isAngle x = false := by
  rcases h with h | h
  all_goals simp [isAngle, Lexeme.beginsWith, (Lexeme.isSymbol_iff.1 h).2]

theorem Abreast.typeSpaced (h : Abreast gone levels before c c') (hspaced : Spaced gone c c') :
    TypeSpaced c c' where
  angle := by
    refine h.next_attached_eq hspaced (fun x y halike hapart => ?_)
      (fun x hapart => ?_) fun x hsymbol => ?_
    · rw [isAttachedAngle, isAttachedAngle, halike.isAngle, hapart]
    · rw [isAttachedAngle, hapart, Bool.not_true, Bool.and_false]
    · rw [isAttachedAngle, isAngle_of_symbol hsymbol, Bool.false_and]
  mark := h.next_isPostfixOperator_eq hspaced

/-- Before a symbol that cannot belong to a type there is neither an angle bracket nor a mark. -/
theorem typeSpaced_of_symbol (hx : c.peek? = some x) (hy : c'.peek? = some y) (halike : x.Alike y)
    (hsymbol : x.isSymbol "\x7b" = true ∨ x.isCloser = true ∨ x.isSymbol ";" = true) :
    TypeSpaced c c' := by
  have hplain : ∀ l : Lexeme, l.isSymbol "\x7b" = true ∨ l.isCloser = true ∨ l.isSymbol ";" = true →
      isAttachedAngle l = false ∧ l.isPostfixOperator = false := by
    intro l hl
    simp only [Lexeme.isCloser, Bool.or_eq_true] at hl
    rcases hl with hl | ((hl | hl) | hl) | hl
    all_goals
      simp [isAttachedAngle, isAngle, Lexeme.beginsWith, Lexeme.isPostfixOperator,
        (Lexeme.isSymbol_iff.1 hl).2]
  have hother : y.isSymbol "\x7b" = true ∨ y.isCloser = true ∨ y.isSymbol ";" = true := by
    rwa [halike.isSymbol, halike.isCloser, halike.isSymbol]
  refine ⟨?_, ?_⟩
  · rw [Cursor.next_of_peek? hx, Cursor.next_of_peek? hy, (hplain x hsymbol).1, (hplain y hother).1]
  · rw [Cursor.next_of_peek? hx, Cursor.next_of_peek? hy, (hplain x hsymbol).2, (hplain y hother).2]

section Lists

variable {sourceStop sourceStop' lastStop lastStop' : Nat}

/-- Two readings of generic parameters end at cursors that are abreast. -/
def GenericEnd (gone : Lexeme → Bool) (levels : Nat) (c c' later later' : Cursor) : Prop :=
  Onward gone levels c c' later later' ∧ TypeSpaced later later'

/-- Inside angle brackets both readings of generic parameters go on alike from two cursors. -/
def GenericsAlike (gone : Lexeme → Bool) (levels : Nat) (c c' : Cursor) : Prop :=
  ∀ ⦃depth : Int⦄ ⦃opens opens' : List Lexeme⦄, List.Forall₂ Lexeme.Alike opens opens' →
    leavesOpen gone depth opens.length c.ahead = false → 0 < depth →
    Outcome.Follows (GenericEnd gone levels c c')
      (Cursor.skipGenericOpen c.sourceStop depth opens c.lastStop c.ahead)
      (Cursor.skipGenericOpen c'.sourceStop depth opens' c'.lastStop c'.ahead)

/-- How many angle brackets are open behind a lexeme that belongs to no group. -/
def depthBehind (depth : Int) (lexeme : Lexeme) : Int :=
  if lexeme.kind == .punctuation then depth + Cursor.angleDepth lexeme else depth

theorem depthBehind_of_alike (h : x.Alike y) (depth : Int) :
    depthBehind depth y = depthBehind depth x := by
  rw [depthBehind, depthBehind, h.kind]
  by_cases hkind : x.kind = .punctuation
  · rw [h.angleDepth hkind]
  · rw [beq_false_of_ne hkind]
    rfl

/-- A comma does not end generic parameters. -/
theorem depthBehind_pos_or {depth : Int} (h : 0 < depth ∨ isAngle x = true) :
    0 < depthBehind depth x ∨ x.isSymbol "," = false := by
  cases hcomma : x.isSymbol "," with
  | false => exact .inr rfl
  | true =>
      have hflat : Cursor.angleDepth x = 0 := by
        rw [Cursor.angleDepth, (Lexeme.isSymbol_iff.1 hcomma).2]
        decide
      have hangle : isAngle x = false := isAngle_of_symbol (.inl hcomma)
      rw [depthBehind, hflat, Int.add_zero, ite_self]
      exact .inl (h.resolve_right fun h => Bool.false_ne_true (hangle.symm.trans h))

/-- Inside a group both take the next lexeme, or it closes another group than the last one. -/
theorem GenericsAlike.grouped
    (ih : GenericsAlike gone levels ⟨lexemes, x.stop, sourceStop⟩ ⟨others, y.stop, sourceStop'⟩)
    (halike : x.Alike y) {depth : Int} {opener opener' : Lexeme} {opens opens' : List Lexeme}
    (hopener : opener.Alike opener') (hopens : List.Forall₂ Lexeme.Alike opens opens')
    (hclosed : leavesOpen gone depth (opener :: opens).length (x :: lexemes) = false)
    (hdepth : 0 < depth) :
    Outcome.Follows
      (GenericEnd gone levels ⟨x :: lexemes, lastStop, sourceStop⟩ ⟨y :: others, lastStop', sourceStop'⟩)
      (Cursor.skipGenericOpen sourceStop depth (opener :: opens) lastStop (x :: lexemes))
      (Cursor.skipGenericOpen sourceStop' depth (opener' :: opens') lastStop' (y :: others)) := by
  have hnext : ∀ {opens opens' : List Lexeme}, List.Forall₂ Lexeme.Alike opens opens' →
      leavesOpen gone depth opens.length lexemes = false → Outcome.Follows
        (GenericEnd gone levels ⟨x :: lexemes, lastStop, sourceStop⟩
          ⟨y :: others, lastStop', sourceStop'⟩)
        (Cursor.skipGenericOpen sourceStop depth opens x.stop lexemes)
        (Cursor.skipGenericOpen sourceStop' depth opens' y.stop others) :=
    fun hopens hclosed => (ih hopens hclosed hdepth).mono
      fun _ _ hlater => ⟨hlater.1.tail_keep, hlater.2⟩
  rw [leavesOpen.eq_def] at hclosed
  rw [Cursor.skipGenericOpen.eq_def _ _ (opener :: opens),
    Cursor.skipGenericOpen.eq_def _ _ (opener' :: opens')]
  dsimp only [List.length_cons] at hclosed ⊢
  rw [halike.isOpener, halike.isCloser, halike.closes hopener]
  cases hx : x.isOpener with
  | true =>
      rw [hx] at hclosed
      exact hnext (.cons halike (.cons hopener hopens)) hclosed
  | false =>
      rw [hx] at hclosed
      cases hcloser : x.isCloser with
      | false =>
          rw [hcloser] at hclosed
          exact hnext (.cons hopener hopens) hclosed
      | true =>
          rw [hcloser] at hclosed
          cases hcloses : x.closes opener with
          | true => exact hnext hopens hclosed
          | false => exact Outcome.follows_error _

/-- Outside groups both open a group, end, or take the next lexeme. -/
theorem GenericsAlike.plain
    (ih : GenericsAlike gone levels ⟨lexemes, x.stop, sourceStop⟩ ⟨others, y.stop, sourceStop'⟩)
    (h : Abreast gone levels before ⟨x :: lexemes, lastStop, sourceStop⟩
      ⟨y :: others, lastStop', sourceStop'⟩)
    (hgone : gone x = false) (halike : x.Alike y) {depth : Int}
    (hclosed : leavesOpen gone depth 0 (x :: lexemes) = false)
    (hdepth : 0 < depth ∨ isAngle x = true) :
    Outcome.Follows
      (GenericEnd gone levels ⟨x :: lexemes, lastStop, sourceStop⟩ ⟨y :: others, lastStop', sourceStop'⟩)
      (Cursor.skipGenericOpen sourceStop depth [] lastStop (x :: lexemes))
      (Cursor.skipGenericOpen sourceStop' depth [] lastStop' (y :: others)) := by
  have htail := h.tail_keep hgone
  rw [leavesOpen.eq_def] at hclosed
  rw [Cursor.skipGenericOpen.eq_def _ _ [], Cursor.skipGenericOpen.eq_def _ _ []]
  dsimp only at hclosed ⊢
  rw [halike.isSymbol "(", halike.isSymbol "[", halike.isSymbol "\x7b", halike.isCloser,
    halike.isSymbol ";", ← depthBehind, ← depthBehind, depthBehind_of_alike halike]
  rw [← depthBehind] at hclosed
  by_cases hgroup : (x.isSymbol "(" || x.isSymbol "[") = true
  · rw [if_pos hgroup] at hclosed ⊢
    rw [if_pos hgroup]
    have hpositive : 0 < depth := by
      refine hdepth.resolve_right fun hangle => ?_
      rw [Bool.or_eq_true] at hgroup
      rcases hgroup with hgroup | hgroup
      all_goals
        simp [isAngle, Lexeme.beginsWith, (Lexeme.isSymbol_iff.1 hgroup).2] at hangle
    exact (ih (.cons halike .nil) hclosed hpositive).mono
      fun _ _ hlater => ⟨hlater.1.tail_keep, hlater.2⟩
  · rw [if_neg hgroup] at hclosed ⊢
    rw [if_neg hgroup]
    rw [hgone, if_neg Bool.false_ne_true] at hclosed
    by_cases hends : (x.isSymbol "\x7b" || x.isCloser || x.isSymbol ";") = true
    · rw [if_pos hends, if_pos hends]
      refine .ok ⟨.refl h, typeSpaced_of_symbol rfl rfl halike ?_⟩
      simpa [or_assoc] using hends
    · rw [if_neg hends] at hclosed ⊢
      rw [if_neg hends]
      by_cases hdone : depthBehind depth x ≤ 0
      · rw [if_pos hdone, if_pos hdone]
        refine .ok ⟨(Onward.refl htail).tail_keep, htail.typeSpaced (htail.spaced ?_)⟩
        exact (depthBehind_pos_or hdepth).resolve_left (Int.not_lt.2 hdone)
      · rw [if_neg hdone, if_neg hdone]
        have hpositive : 0 < depthBehind depth x := Int.not_le.1 hdone
        rw [decide_eq_true hpositive, Bool.true_and] at hclosed
        exact (ih .nil hclosed hpositive).mono fun _ _ hlater => ⟨hlater.1.tail_keep, hlater.2⟩

/-- Both skip the same generic parameters when those are not open at a semicolon that goes. -/
theorem follows_skipGenericOpen {depth : Int} {opens opens' : List Lexeme}
    (hopens : List.Forall₂ Lexeme.Alike opens opens') (hthinned : Thinned gone before lexemes others)
    (h : Abreast gone levels before ⟨lexemes, lastStop, sourceStop⟩ ⟨others, lastStop', sourceStop'⟩)
    (hclosed : leavesOpen gone depth opens.length lexemes = false)
    (hdepth : 0 < depth ∨ opens = [] ∧ lexemes.head?.any isAngle = true) :
    Outcome.Follows
      (GenericEnd gone levels ⟨lexemes, lastStop, sourceStop⟩ ⟨others, lastStop', sourceStop'⟩)
      (Cursor.skipGenericOpen sourceStop depth opens lastStop lexemes)
      (Cursor.skipGenericOpen sourceStop' depth opens' lastStop' others) := by
  induction hthinned generalizing depth opens opens' lastStop lastStop' with
  | nil =>
      cases hopens with
      | nil => exact .ok ⟨.refl h, rfl, rfl⟩
      | @cons opener opener' opens opens' hopener hrest =>
          have hsome : (opener :: opens).getLast? = some
            ((opener :: opens).getLast (List.cons_ne_nil _ _)) :=
            List.getLast?_eq_some_getLast _
          rw [Cursor.skipGenericOpen.eq_def, hsome]
          exact Outcome.follows_error _
  | @keep before lexemes others x y hgone halike hapart hrest ih =>
      have hbehind : GenericsAlike gone levels ⟨lexemes, x.stop, sourceStop⟩
          ⟨others, y.stop, sourceStop'⟩ :=
        fun _ _ _ hopens hclosed hdepth => ih hopens (h.tail_keep hgone) hclosed (.inl hdepth)
      cases hopens with
      | nil => exact hbehind.plain h hgone halike hclosed (hdepth.imp_right And.right)
      | cons hopener hrest' =>
          exact hbehind.grouped halike hopener hrest' hclosed
            (hdepth.resolve_right fun hnil => List.cons_ne_nil _ _ hnil.1)
  | @drop before lexemes others x hgone hsemicolon hline hrest ih =>
      have hplain : x.isOpener = false ∧ x.isCloser = false ∧
        (x.isSymbol "(" || x.isSymbol "[") = false := by
        simp only [Lexeme.isOpener, Lexeme.isCloser]
        simp [isSymbol_of_semicolon hsemicolon]
      rw [leavesOpen.eq_def] at hclosed
      cases hopens with
      | nil =>
          -- outside groups the parameters would be open at a semicolon that goes
          dsimp only [List.length_nil] at hclosed
          rw [hplain.2.2, if_neg Bool.false_ne_true, hgone, if_pos rfl] at hclosed
          exact absurd hclosed Bool.noConfusion
      | @cons opener opener' opens opens' hopener hrest' =>
          have hpositive : 0 < depth := hdepth.resolve_right fun hnil => List.cons_ne_nil _ _ hnil.1
          rw [Cursor.skipGenericOpen.eq_def _ _ (opener :: opens)]
          dsimp only [List.length_cons] at hclosed ⊢
          rw [hplain.1, hplain.2.1] at hclosed ⊢
          exact (ih (.cons hopener hrest') (h.tail_drop hgone) hclosed (.inl hpositive)).mono
            fun _ _ hlater => ⟨hlater.1.tail_drop, hlater.2⟩

end Lists

theorem Abreast.follows_skipGeneric (h : Abreast gone levels before c c')
    (hangle : c.next isAngle = true) (hclosed : leavesOpen gone 0 0 c.ahead = false) :
    Outcome.Follows (GenericEnd gone levels c c') c.skipGeneric c'.skipGeneric :=
  follows_skipGenericOpen .nil h.thinned h hclosed (.inr ⟨rfl, hangle⟩)

/-- Generic parameters begin with a lexeme that is taken. -/
theorem meets_skipGeneric_passes (hpeek : c.peek? = some x) (hangle : isAngle x = true) :
    c.skipGeneric.Meets c.Passes := by
  obtain ⟨ahead, hahead⟩ := Cursor.peek?_eq_some_iff.1 hpeek
  have hpasses := Cursor.Passes.advance hpeek
  rw [Cursor.advance_of_cons hahead] at hpasses
  rw [isAngle, Bool.and_eq_true, beq_iff_eq, Lexeme.beginsWith, beq_iff_eq] at hangle
  have hne : ∀ {text : String}, text.toList.head? ≠ some '<' → x.isSymbol text = false := by
    intro text htext
    cases hx : x.isSymbol text with
    | false => rfl
    | true => exact absurd ((Lexeme.isSymbol_iff.1 hx).2 ▸ hangle.2) htext
  rw [Cursor.skipGeneric, hahead, Cursor.skipGenericOpen.eq_def]
  dsimp only
  rw [Lexeme.isCloser, hne (by decide), hne (by decide), hne (by decide), hne (by decide),
    hne (by decide), hne (by decide), hne (by decide)]
  generalize (if x.kind == .punctuation then 0 + Cursor.angleDepth x else 0) = depth
  split
  · contradiction
  · split
    · contradiction
    · split
      · exact hpasses
      · exact (Cursor.meets_skipGenericOpen _ _ _ _ _).mono fun _ hlater => hpasses.trans_reaches hlater

theorem Abreast.follows_skipGenericParameters (h : Abreast gone levels before c c')
    (hharmless : genericsHarmless gone c = true) :
    Outcome.Follows (Onward gone levels c c') c.skipGenericParameters c'.skipGenericParameters := by
  have hangle : c'.next (fun l => l.kind == .punctuation && l.beginsWith '<') =
      c.next fun l => l.kind == .punctuation && l.beginsWith '<' := h.next_isAngle_eq
  rw [Cursor.skipGenericParameters, Cursor.skipGenericParameters, hangle]
  split
  · rename_i hopens
    have hopens' : c.next isAngle = true := hopens
    rw [genericsHarmless, hopens', Bool.not_true, Bool.false_or, Bool.not_eq_true'] at hharmless
    exact (h.follows_skipGeneric hopens hharmless).mono fun _ _ hlater => hlater.1
  · exact .ok (.refl h)

/-! ### Types -/

/-- The states of two types that are read from two cursors on. -/
structure TypeState (gone : Lexeme → Bool) (levels : Nat) (c c' : Cursor) (more : Bool)
    (middle : Cursor) (more' : Bool) (middle' : Cursor) : Prop where
  same : more' = more
  abreast : ∃ before, Abreast gone levels before middle middle' ∧ (more = true → Dangling before)
  spaced : TypeSpaced middle middle'
  reaches : c.Reaches middle
  reaches' : c'.Reaches middle'

/-- Two types end at cursors that are abreast, and not before a mark. -/
def TypeEnd (gone : Lexeme → Bool) (levels : Nat) (c c' later later' : Cursor) : Prop :=
  Onward gone levels c c' later later' ∧ later.next Lexeme.isPostfixOperator = false

variable {middle middle' : Cursor} {more more' : Bool}

theorem TypeState.ends (h : TypeState gone levels c c' more middle more' middle')
    (hmark : middle.next Lexeme.isPostfixOperator = false) :
    TypeEnd gone levels c c' middle middle' := by
  obtain ⟨before, habreast, -⟩ := h.abreast
  exact ⟨⟨⟨before, habreast⟩, h.reaches, h.reaches'⟩, hmark⟩

/-- Another part of two types, or their ends. -/
def TypeRounds (gone : Lexeme → Bool) (levels : Nat) (c c' middle' : Cursor) :
    Round Bool Unit × Cursor → Round Bool Unit × Cursor → Prop :=
  Round.Pair (TypeState gone levels c c')
    (fun r r' : Unit × Cursor => TypeEnd gone levels c c' r.2 r'.2) middle'

/-- Two types end where they stand. -/
theorem TypeState.stop (h : TypeState gone levels c c' more middle more' middle')
    (hmark : middle.next Lexeme.isPostfixOperator = false) :
    Outcome.Follows (TypeRounds gone levels c c' middle') (.ok (.done (), middle))
      (.ok (.done (), middle')) :=
  .ok (h.ends hmark)

/-- Another part of two types that is a single lexeme. -/
theorem TypeState.advance (h : TypeState gone levels c c' more middle more' middle')
    (hkept : Kept gone levels before middle middle' x y) (hx : x.isSymbol "," = false) (next : Bool)
    (hmore : next = true → Dangling (x :: before)) :
    Outcome.Follows (TypeRounds gone levels c c' middle') (.ok (.again next, middle.advance))
      (.ok (.again next, middle'.advance)) :=
  .ok ⟨⟨rfl, ⟨_, hkept.later, hmore⟩, hkept.later.typeSpaced (hkept.spaced hx),
    h.reaches.trans (.advance _), h.reaches'.trans (.advance _)⟩, hkept.passes'.2⟩

/-- Another part of two types that is skipped as a whole. No other part has to follow it. -/
theorem TypeState.skip (h : TypeState gone levels c c' more middle more' middle')
    {skipped skipped' : Outcome Cursor}
    (hskip : Outcome.Follows (GenericEnd gone levels middle middle') skipped skipped')
    (hpasses : skipped.Meets middle.Passes) (hpasses' : skipped'.Meets middle'.Passes) :
    Outcome.Follows (TypeRounds gone levels c c' middle')
      (skipped >>= fun later => pure (.again false, later))
      (skipped' >>= fun later => pure (.again false, later)) := by
  refine (hskip.meets hpasses hpasses').bind ?_
  rintro later later' ⟨⟨hlater, hspaced⟩, hpasses, hpasses'⟩
  obtain ⟨before', habreast⟩ := hlater.abreast
  exact .ok ⟨⟨rfl, ⟨before', habreast, (absurd · Bool.false_ne_true)⟩, hspaced,
    h.reaches.trans hpasses.1, h.reaches'.trans hpasses'.1⟩, hpasses'.2⟩

/-- When no other part has to follow, a type ends before a new line. -/
theorem typeRound_of_isOnNewLine (hpeek : c.peek? = some x) (hline : x.isOnNewLine = true) :
    Cursor.typeRound false c = .ok (.done (), c) := by
  rw [Cursor.typeRound, hpeek]
  dsimp only
  rw [hline]
  rfl

/-- At a semicolon that goes a type ends, and without the semicolon it ends with its line. -/
theorem typeRound_of_dropped (h : Dropped gone levels before middle middle' x) :
    Cursor.typeRound false middle = .ok (.done (), middle) ∧
      Cursor.typeRound false middle' = .ok (.done (), middle') := by
  obtain ⟨hkind, htext⟩ := Lexeme.isSymbol_iff.1 h.semicolon
  refine ⟨?_, ?_⟩
  · rw [Cursor.typeRound, h.peek]
    simp [hkind, htext, Lexeme.beginsWith, Lexeme.isPostfixOperator]
  · have hfresh := h.fresh
    cases hpeek : middle'.peek? with
    | none => rw [Cursor.typeRound, hpeek]
    | some y =>
        obtain ⟨ahead, hahead⟩ := Cursor.peek?_eq_some_iff.1 hpeek
        rw [hahead] at hfresh
        exact typeRound_of_isOnNewLine hpeek hfresh.head_isOnNewLine

/-- A type goes on alike at a word, a literal, an attribute or a number. -/
theorem TypeState.round_of_word (h : TypeState gone levels c c' more middle more middle')
    (hkept : Kept gone levels before middle middle' x y) (hkind : x.kind ≠ .punctuation)
    (hline : (!more && x.isOnNewLine) = false) :
    Outcome.Follows (TypeRounds gone levels c c' middle') (Cursor.typeRound more middle)
      (Cursor.typeRound more middle') := by
  have halike := hkept.alike
  have hcomma : x.isSymbol "," = false := isSymbol_of_kind_ne hkind _
  have hstop := h.stop (hkept.next.trans (by
    rw [Lexeme.isPostfixOperator, beq_false_of_ne hkind, Bool.false_and, Bool.false_and,
      Bool.false_and]))
  rw [Cursor.typeRound, Cursor.typeRound, hkept.peek, hkept.peek']
  dsimp only
  rw [halike.isOnNewLine, halike.kind, hline, if_neg Bool.false_ne_true, if_neg Bool.false_ne_true]
  cases hword : x.kind with
  | punctuation => exact absurd hword hkind
  | token kind =>
      cases kind with
      | string | comment => exact hstop
      | identifier =>
          dsimp only
          rw [halike.text_beq (by decide), halike.text_beq (by decide)]
          cases more with
          | false => exact hstop
          | true =>
              refine h.advance hkept hcomma _ fun htype => dangling_of_identifier hword ?_
              simpa using htype
      | keyword =>
          dsimp only
          rw [halike.text_eq (by simp [hword])]
          cases more with
          | true =>
              rw [if_pos rfl]
              split
              · refine h.advance hkept hcomma _ fun hinout => dangling_of_keyword hword ?_
                rw [beq_iff_eq.1 hinout]
                decide
              · exact hstop
          | false =>
              rw [if_neg Bool.false_ne_true]
              split
              · exact h.advance hkept hcomma _ (absurd · Bool.false_ne_true)
              · exact hstop
      | other =>
          dsimp only
          rw [halike.beginsWith (by simp [hword])]
          split
          · rename_i hattribute
            refine h.advance hkept hcomma _ fun _ => dangling_of_isAttribute ?_
            rw [Lexeme.isAttribute, hword, hattribute]
            rfl
          · exact hstop

/-- A type goes on alike at a sign. -/
theorem TypeState.round_of_punctuation (h : TypeState gone levels c c' more middle more middle')
    (habreast : Abreast gone levels before middle middle') (hdangling : more = true → Dangling before)
    (hkept : Kept gone levels before middle middle' x y) (hkind : x.kind = .punctuation)
    (hline : (!more && x.isOnNewLine) = false)
    (hclosed : isAttachedAngle x = true → leavesOpen gone 0 0 middle.ahead = false) :
    Outcome.Follows (TypeRounds gone levels c c' middle') (Cursor.typeRound more middle)
      (Cursor.typeRound more middle') := by
  have halike := hkept.alike
  have hmark := h.spaced.mark
  have hangle := h.spaced.angle
  rw [hkept.next, hkept.next'] at hmark hangle
  have hattached : ∀ l : Lexeme, l.kind = .punctuation →
      (l.beginsWith '<' && !l.isApart) = isAttachedAngle l := by
    intro l hl
    rw [isAttachedAngle, isAngle, hl]
    rfl
  have hcomma : ∀ {text : String}, x.text = text → text ≠ "," → x.isSymbol "," = false := by
    rintro text rfl htext
    rw [Lexeme.isSymbol, beq_false_of_ne htext, Bool.and_false]
  rw [Cursor.typeRound, Cursor.typeRound, hkept.peek, hkept.peek']
  dsimp only
  rw [halike.isOnNewLine, halike.kind, hmark, hline, if_neg Bool.false_ne_true,
    if_neg Bool.false_ne_true, hkind]
  dsimp only
  rw [halike.text_eq (by simp [hkind]), hattached x hkind, hattached y (halike.kind.trans hkind), hangle]
  split
  · refine h.skip (hkept.follows_skipGroup.mono ?_) (Cursor.meets_skipGroup_passes hkept.peek)
      (Cursor.meets_skipGroup_passes hkept.peek')
    rintro later later' ⟨hlater, hspaced⟩
    obtain ⟨before', hbehind⟩ := hlater.abreast
    exact ⟨hkept.onward.trans hlater, hbehind.typeSpaced hspaced⟩
  · split
    · rename_i hjoins
      simp only [List.contains_cons, List.contains_nil, Bool.or_eq_true, beq_iff_eq, Bool.or_false]
        at hjoins
      rcases hjoins with htext | htext | htext
      all_goals
        exact h.advance hkept (hcomma htext (by decide)) _ fun _ =>
          dangling_of_isSymbol (Lexeme.isSymbol_iff.2 ⟨hkind, htext⟩) (by decide)
    · split
      · rename_i hdots
        have htext := beq_iff_eq.1 hdots
        exact h.advance hkept (hcomma htext (by decide)) _ fun _ =>
          dangling_of_isSymbol (Lexeme.isSymbol_iff.2 ⟨hkind, htext⟩) (by decide)
      · split
        · rename_i hopens
          have hx : isAngle x = true := (Bool.and_eq_true _ _ ▸ hopens).1
          exact h.skip (habreast.follows_skipGeneric (hkept.next.trans hx) (hclosed hopens))
            (meets_skipGeneric_passes hkept.peek hx)
            (meets_skipGeneric_passes hkept.peek' (halike.isAngle.trans hx))
        · split
          · rename_i hpostfix
            refine h.advance hkept ?_ _ fun hmore => dangling_of_mark hpostfix (hdangling hmore)
            exact isSymbol_of_isOperator (Lexeme.isOperator_of_isPostfixOperator hpostfix) (.inl rfl)
          · rename_i hpostfix
            exact h.stop (hkept.next.trans (Bool.eq_false_iff.2 hpostfix))

theorem TypeState.round (h : TypeState gone levels c c' more middle more' middle')
    (hclosed : middle.next isAttachedAngle = true → leavesOpen gone 0 0 middle.ahead = false) :
    Outcome.Follows (TypeRounds gone levels c c' middle') (Cursor.typeRound more middle)
      (Cursor.typeRound more' middle') := by
  obtain rfl : more = more' := h.same.symm
  obtain ⟨before, habreast, hdangling⟩ := h.abreast
  cases habreast.meeting with
  | finished hahead hahead' =>
      have hpeek : middle.peek? = none := by rw [Cursor.peek?, hahead]; rfl
      have hpeek' : middle'.peek? = none := by rw [Cursor.peek?, hahead']; rfl
      rw [Cursor.typeRound, Cursor.typeRound, hpeek, hpeek']
      exact h.stop (Cursor.next_of_nil hahead)
  | @dropped x hdropped =>
      -- right before a part that has to follow no semicolon goes
      have hdone : more = false := by
        cases more with
        | false => rfl
        | true =>
            have hstays := habreast.stays (hdangling rfl)
            rw [Cursor.next_of_peek? hdropped.peek, hdropped.goes] at hstays
            exact absurd hstays Bool.noConfusion
      subst hdone
      rw [(typeRound_of_dropped hdropped).1, (typeRound_of_dropped hdropped).2]
      refine h.stop ?_
      rw [Cursor.next_of_peek? hdropped.peek, isPostfixOperator_of_semicolon hdropped.semicolon]
  | @kept x y hkept =>
      rw [hkept.next] at hclosed
      cases hline : !more && x.isOnNewLine with
      | true =>
          obtain ⟨hmore, hx⟩ := Bool.and_eq_true_iff.1 hline
          obtain rfl : more = false := by simpa using hmore
          rw [typeRound_of_isOnNewLine hkept.peek hx,
            typeRound_of_isOnNewLine hkept.peek' (hkept.alike.isOnNewLine.trans hx)]
          exact h.stop (hkept.next.trans
            (Lexeme.isPostfixOperator_of_isApart (Lexeme.isApart_of_isOnNewLine hx)))
      | false =>
          by_cases hkind : x.kind = .punctuation
          · exact h.round_of_punctuation habreast hdangling hkept hkind hline hclosed
          · exact h.round_of_word hkept hkind hline

theorem Abreast.follows_skipType (h : Abreast gone levels before c c') (hbefore : Dangling before)
    (hspaced : TypeSpaced c c') (hharmless : typeHarmless gone c = true) :
    Outcome.Follows (TypeEnd gone levels c c') c.skipType c'.skipType := by
  rw [typeHarmless, List.all_eq_true] at hharmless
  refine Outcome.Follows.bind (R := fun r r' => TypeEnd gone levels c c' r.2 r'.2)
    (follows_repeatRounds (S := TypeState gone levels c c') ?_ ?_) fun r r' hend => .ok hend
  · intro more middle more' middle' hplace hstate
    refine .inr (hstate.round fun hangle => ?_)
    have hclosed := hharmless _ hplace
    rwa [hangle, Bool.not_true, Bool.false_or, Bool.not_eq_true'] at hclosed
  · exact ⟨rfl, ⟨before, h, fun _ => hbefore⟩, hspaced, .refl c, .refl c'⟩

/-- A type behind a lexeme that announces one. -/
theorem Kept.follows_skipType (h : Kept gone levels before c c' x y) (hbefore : Dangling (x :: before))
    (hspaced : TypeSpaced c.advance c'.advance) (hx : announcesType x = true) :
    Outcome.Follows (TypeEnd gone levels c.advance c'.advance) c.advance.skipType
      c'.advance.skipType := by
  have hbehind := h.later.behind (Nat.zero_le _)
  rw [harmlessBehind, hx, Bool.not_true, Bool.false_or, Bool.and_eq_true] at hbehind
  exact h.later.follows_skipType hbefore hspaced hbehind.1

theorem Abreast.follows_skipDeclaredType (h : Abreast gone levels before c c') :
    Outcome.Follows (Onward gone levels c c') c.skipDeclaredType c'.skipDeclaredType := by
  rw [Cursor.skipDeclaredType, Cursor.skipDeclaredType, h.atSymbol_eq (by decide)]
  cases hcolon : c.atSymbol ":" with
  | false => exact .ok (.refl h)
  | true =>
      obtain ⟨x, y, hkept, hx⟩ := h.kept_of_atSymbol hcolon (by decide)
      have hannounces : announcesType x = true := by rw [announcesType, hx]; rfl
      have hcomma : x.isSymbol "," = false := by
        rw [Lexeme.isSymbol, (Lexeme.isSymbol_iff.1 hx).2]
        exact Bool.and_false _
      exact (hkept.follows_skipType (dangling_of_isSymbol hx (by decide))
        (hkept.later.typeSpaced (hkept.spaced hcomma)) hannounces).mono
        fun _ _ hlater => hkept.onward.trans hlater.1

/-- A mark right behind the last lexeme. -/
theorem Abreast.skipPostfixOperator (h : Abreast gone levels before c c') (hspaced : Spaced gone c c') :
    (c.next Lexeme.isPostfixOperator = false ∧ c.skipPostfixOperator = c ∧ c'.skipPostfixOperator = c') ∨
      ∃ x y, Kept gone levels before c c' x y ∧ x.isPostfixOperator = true ∧
        c.skipPostfixOperator = c.advance ∧ c'.skipPostfixOperator = c'.advance := by
  rw [Cursor.skipPostfixOperator, Cursor.skipPostfixOperator, h.next_isPostfixOperator_eq hspaced]
  cases hmark : c.next Lexeme.isPostfixOperator with
  | false => exact .inl ⟨rfl, rfl, rfl⟩
  | true =>
      obtain ⟨x, y, hkept, hx⟩ := h.kept_of_next hmark fun _ => isPostfixOperator_of_semicolon
      exact .inr ⟨x, y, hkept, hx, rfl, rfl⟩

/-- The type that a cast names behind its keyword. -/
theorem Kept.follows_skipCastType (h : Kept gone levels before c c' x y)
    (hx : x.isKeyword "as" = true ∨ x.isKeyword "is" = true) :
    Outcome.Follows (TypeEnd gone levels c.advance c'.advance) c.advance.skipPostfixOperator.skipType
      c'.advance.skipPostfixOperator.skipType := by
  have hkind : x.kind = .token .keyword := hx.elim (fun h => (Lexeme.isKeyword_iff.1 h).1) fun h =>
    (Lexeme.isKeyword_iff.1 h).1
  have hdangling : Dangling (x :: before) := by
    refine dangling_of_keyword hkind ?_
    rcases hx with hx | hx
    all_goals
      rw [(Lexeme.isKeyword_iff.1 hx).2]
      decide
  have hannounces : announcesType x = true := by
    rcases hx with hx | hx
    all_goals simp [announcesType, hx]
  have hspaced := h.spaced (isSymbol_of_kind_ne (by simp [hkind]) _)
  rcases h.later.skipPostfixOperator hspaced with ⟨-, hskip, hskip'⟩ |
    ⟨mark, mark', hkept, hmark, hskip, hskip'⟩
  · rw [hskip, hskip']
    exact h.follows_skipType hdangling (h.later.typeSpaced hspaced) hannounces
  · rw [hskip, hskip']
    have hoperator := Lexeme.isOperator_of_isPostfixOperator hmark
    have hmarkAnnounces : announcesType mark = true := by simp [announcesType, hmark]
    exact (hkept.follows_skipType (dangling_of_mark hmark hdangling)
      (hkept.later.typeSpaced (hkept.spaced (isSymbol_of_isOperator hoperator (.inl rfl))))
      hmarkAnnounces).mono fun _ _ hlater => ⟨hkept.onward.trans hlater.1, hlater.2⟩

/-! ### Expected lexemes -/

/-- Both have taken the symbol. -/
structure Took (gone : Lexeme → Bool) (levels : Nat) (text : String) (c c' : Cursor)
    (r r' : Lexeme × Cursor) : Prop where
  symbol : r.1.isSymbol text = true
  behind : ∃ before, Abreast gone levels (r.1 :: before) r.2 r'.2
  onward : Onward gone levels c c' r.2 r'.2
  passes' : c'.Passes r'.2

theorem Kept.took (h : Kept gone levels before c c' x y) {text : String} (hx : x.isSymbol text = true) :
    Took gone levels text c c' (x, c.advance) (y, c'.advance) :=
  ⟨hx, ⟨_, h.later⟩, h.onward, h.passes'⟩

theorem Abreast.follows_expectSymbol (h : Abreast gone levels before c c') {text : String}
    (htext : text ≠ ";") (what : Expectation) :
    Outcome.Follows (Took gone levels text c c') (c.expectSymbol text what)
      (c'.expectSymbol text what) := by
  cases h.meeting with
  | finished hahead =>
      rw [Cursor.expectSymbol, Cursor.peek?, hahead]
      exact Outcome.follows_error _
  | kept hkept =>
      rw [Cursor.expectSymbol, Cursor.expectSymbol, hkept.peek, hkept.peek']
      dsimp only
      rw [hkept.alike.isSymbol]
      split
      · rename_i hx
        exact .ok (hkept.took hx)
      · exact Outcome.follows_error _
  | dropped hdropped =>
      rw [Cursor.expectSymbol, hdropped.peek]
      dsimp only
      rw [isSymbol_of_semicolon hdropped.semicolon htext]
      exact Outcome.follows_error _

theorem Abreast.follows_expectCloser (h : Abreast gone levels before c c') {text : String}
    (htext : text ≠ ";") (opener opener' : Lexeme) :
    Outcome.Follows (Took gone levels text c c') (c.expectCloser text opener)
      (c'.expectCloser text opener') := by
  cases h.meeting with
  | finished hahead =>
      rw [Cursor.expectCloser, Cursor.peek?, hahead]
      exact Outcome.follows_error _
  | kept hkept =>
      rw [Cursor.expectCloser, Cursor.expectCloser, hkept.peek, hkept.peek']
      dsimp only
      rw [hkept.alike.isSymbol]
      split
      · rename_i hx
        exact .ok (hkept.took hx)
      · split
        · exact Outcome.follows_error _
        · exact Outcome.follows_error _
  | dropped hdropped =>
      rw [Cursor.expectCloser, hdropped.peek]
      dsimp only
      rw [isSymbol_of_semicolon hdropped.semicolon htext]
      split
      · contradiction
      · split
        · exact Outcome.follows_error _
        · exact Outcome.follows_error _

end SourceLint.Grammar
