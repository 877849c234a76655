import SourceLint.Grammar.Statement
import SourceLint.Proofs.Syntax.Arrangement
import SourceLint.Proofs.Syntax.LexemeOrder
import SourceLint.Proofs.Syntax.Traversal

/-!
# What productions of the grammar read

A production moves a cursor ahead and gives nodes. The nodes are arranged between the place where the
production starts and the end of the last lexeme that it takes, each of them ends where a lexeme ends, and
each closure and each loop over a sequence among them is one that the grammar reads at some cursor on the
way; this is what `Reads` says, and what every production is shown to do. Sequences of productions put such
pieces behind each other, and a production that builds a node wraps one piece.

## Implementation notes

A statement about an outcome has two sides: what holds of a result, and that a failure is never about a
structure. `Meets` holds both, so each production is opened once.
-/

namespace SourceLint

/-! ### Outcomes -/

namespace Outcome

variable {α β σ : Type}

/-- A result has the property, and a fault is one of the text. -/
def Meets (P : α → Prop) : Outcome α → Prop
  | .ok a => P a
  | .error (.fault error) => error.IsOfText
  | .error .exhausted => True

variable {P : α → Prop}

theorem Meets.mono {Q : α → Prop} {x : Outcome α} (h : Meets P x) (himp : ∀ a, P a → Q a) :
    Meets Q x := by
  cases x with
  | ok a => exact himp a h
  | error failure =>
      cases failure with
      | fault error => exact h
      | exhausted => exact trivial

/-- What is known of a result may depend on where it comes from. -/
theorem Meets.of_eq {Q : α → Prop} {x : Outcome α} (h : Meets P x)
    (himp : ∀ a, x = .ok a → P a → Q a) : Meets Q x := by
  cases x with
  | ok a => exact himp a rfl h
  | error failure =>
      cases failure with
      | fault error => exact h
      | exhausted => exact trivial

theorem Meets.bind {x : Outcome α} {f : α → Outcome β} {Q : β → Prop} (h : Meets P x)
    (hf : ∀ a, P a → Meets Q (f a)) : Meets Q (x >>= f) := by
  cases x with
  | ok a => exact hf a h
  | error failure =>
      cases failure with
      | fault error => exact h
      | exhausted => exact trivial

/-- A sequence has a result when its first part has one and the rest goes on from it. -/
theorem exists_of_bind {x : Outcome α} {f : α → Outcome β} {b : β} (h : x >>= f = .ok b) : ∃ a, x = .ok a ∧ f a = .ok b := by
  cases x with
  | error failure => cases h
  | ok a => exact ⟨a, rfl, h⟩

theorem Meets.of_ok {x : Outcome α} {a : α} (h : Meets P x) (hx : x = .ok a) : P a := by
  rw [hx] at h
  exact h

theorem meets_unexpected (lexeme : Lexeme) : Meets P (unexpected lexeme) := trivial

theorem meets_expected (c : Cursor) (what : Expectation) : Meets P (expected c what) := trivial

theorem meets_unclosed (opener : Lexeme) : Meets P (unclosed opener) := trivial

end Outcome

/-- A round of a repetition keeps an invariant, or its result has a property. -/
def Round.Keeps {σ β : Type} (I : σ → Cursor → Prop) (Q : β → Cursor → Prop) :
    Round σ β × Cursor → Prop
  | (.again state, c) => I state c
  | (.done result, c) => Q result c

/-- A repetition whose rounds keep an invariant ends with the property of its last round. -/
theorem meets_boundedRounds {σ β : Type} {I : σ → Cursor → Prop} {Q : β → Cursor → Prop}
    {round : σ → Cursor → Outcome (Round σ β × Cursor)}
    (hround : ∀ state c, I state c → (round state c).Meets (Round.Keeps I Q))
    (bound : List Lexeme) {state : σ} {c : Cursor} (h : I state c) :
    (boundedRounds round bound state c).Meets fun r => Q r.1 r.2 := by
  fun_induction boundedRounds round bound state c with
  | case1 bound state c failure hfailure =>
      have hstep := hround state c h
      rw [hfailure] at hstep
      cases failure with
      | fault error => exact hstep
      | exhausted => exact trivial
  | case2 bound state c result later hdone =>
      have hstep := hround state c h
      rw [hdone] at hstep
      exact hstep
  | case3 => exact trivial
  | case4 state c state' later hagain lexeme bound ih =>
      have hstep := hround state c h
      rw [hagain] at hstep
      exact ih hstep

theorem meets_repeatRounds {σ β : Type} {I : σ → Cursor → Prop} {Q : β → Cursor → Prop}
    {round : σ → Cursor → Outcome (Round σ β × Cursor)}
    (hround : ∀ state c, I state c → (round state c).Meets (Round.Keeps I Q))
    {state : σ} {c : Cursor} (h : I state c) :
    (repeatRounds round state c).Meets fun r => Q r.1 r.2 :=
  meets_boundedRounds hround c.ahead h

/-- What each round of a repetition does to the cursor, the repetition does. -/
theorem meets_repeatRounds_of_trans {σ β : Type} {R : Cursor → Cursor → Prop} (hrefl : ∀ c, R c c)
    (htrans : ∀ {c middle later}, R c middle → R middle later → R c later)
    {round : σ → Cursor → Outcome (Round σ β × Cursor)}
    (hround : ∀ state c, (round state c).Meets fun r => R c r.2) (state : σ) (c : Cursor) :
    (repeatRounds round state c).Meets fun r => R c r.2 := by
  refine meets_repeatRounds (I := fun _ middle => R c middle) (Q := fun _ later => R c later) ?_ (hrefl c)
  intro state middle hmiddle
  apply (hround state middle).mono
  rintro ⟨state' | result, later⟩ hlater
  · exact htrans hmiddle hlater
  · exact htrans hmiddle hlater

/-! ### Cursors -/

namespace Cursor

/-- The lexemes ahead of the cursor are in order. -/
def Valid (c : Cursor) : Prop := Lexeme.InOrder c.lastStop c.sourceStop c.ahead

/-- The second cursor is the first one with some lexemes taken. -/
def Reaches (c later : Cursor) : Prop := ∃ n, later = c.advanceBy n

/-- The second cursor is the first one with at least one lexeme taken. -/
def Passes (c later : Cursor) : Prop := c.Reaches later ∧ later.ahead.length < c.ahead.length

theorem advance_of_cons {c : Cursor} {lexeme : Lexeme} {ahead : List Lexeme}
    (h : c.ahead = lexeme :: ahead) :
    c.advance = ⟨ahead, lexeme.stop, c.sourceStop⟩ := by
  simp [advance, h]

theorem advance_of_nil {c : Cursor} (h : c.ahead = []) : c.advance = c := by
  simp [advance, h]

theorem advanceBy_add (c : Cursor) (m n : Nat) :
    c.advanceBy (m + n) = (c.advanceBy m).advanceBy n := by
  induction m generalizing c with
  | zero => rw [Nat.zero_add]; rfl
  | succ m ih =>
      rw [Nat.add_right_comm]
      exact ih c.advance

theorem ahead_advanceBy (c : Cursor) (n : Nat) : (c.advanceBy n).ahead = c.ahead.drop n := by
  induction n generalizing c with
  | zero => rfl
  | succ n ih =>
      have hstep : c.advance.ahead = c.ahead.drop 1 := by
        cases h : c.ahead with
        | nil => rw [advance_of_nil h, h]; rfl
        | cons lexeme ahead => rw [advance_of_cons h]; rfl
      rw [advanceBy, ih, hstep, List.drop_drop, Nat.add_comm]

theorem peek?_eq_some_iff {c : Cursor} {lexeme : Lexeme} :
    c.peek? = some lexeme ↔ ∃ ahead, c.ahead = lexeme :: ahead := by
  rw [peek?, List.head?_eq_some_iff]

/-- A test that the next lexeme passes shows that there is one. -/
theorem exists_peek?_of_next {c : Cursor} {test : Lexeme → Bool} (h : c.next test = true) :
    ∃ lexeme, c.peek? = some lexeme := by
  obtain ⟨lexeme, hpeek, -⟩ := (Option.any_eq_true _ _).1 h
  exact ⟨lexeme, hpeek⟩

namespace Reaches

variable {c later last : Cursor}

theorem refl (c : Cursor) : c.Reaches c := ⟨0, rfl⟩

theorem trans (h : c.Reaches later) (h' : later.Reaches last) : c.Reaches last := by
  obtain ⟨m, rfl⟩ := h
  obtain ⟨n, rfl⟩ := h'
  exact ⟨m + n, (advanceBy_add c m n).symm⟩

theorem advanceBy (c : Cursor) (n : Nat) : c.Reaches (c.advanceBy n) := ⟨n, rfl⟩

theorem advance (c : Cursor) : c.Reaches c.advance := ⟨1, rfl⟩

theorem length_le (h : c.Reaches later) : later.ahead.length ≤ c.ahead.length := by
  obtain ⟨n, rfl⟩ := h
  rw [ahead_advanceBy, List.length_drop]
  exact Nat.sub_le _ _

theorem sourceStop_eq (h : c.Reaches later) : later.sourceStop = c.sourceStop := by
  obtain ⟨n, rfl⟩ := h
  induction n generalizing c with
  | zero => rfl
  | succ n ih =>
      have hstep : c.advance.sourceStop = c.sourceStop := by
        rw [Cursor.advance]
        split <;> rfl
      exact ih.trans hstep

end Reaches

/-- A cursor behind another one has taken as many lexemes as there are or fewer. -/
theorem reaches_iff {c later : Cursor} : c.Reaches later ↔ ∃ n ≤ c.ahead.length, later = c.advanceBy n := by
  constructor
  · rintro ⟨n, hn⟩
    induction n generalizing c with
    | zero => exact ⟨0, Nat.zero_le _, hn⟩
    | succ n ih =>
        obtain ⟨m, hm, hlater⟩ := ih hn
        cases hahead : c.ahead with
        | nil =>
            rw [advance_of_nil hahead, hahead] at hm
            rw [advance_of_nil hahead] at hlater
            exact ⟨m, hm, hlater⟩
        | cons x ahead =>
            rw [advance_of_cons hahead] at hm
            exact ⟨m + 1, Nat.succ_le_succ hm, hlater⟩
  · rintro ⟨n, -, hn⟩
    exact ⟨n, hn⟩

/-! ### Places in the text -/

theorem Valid.advance {c : Cursor} (h : c.Valid) : c.advance.Valid := by
  cases hahead : c.ahead with
  | nil => rwa [advance_of_nil hahead]
  | cons lexeme ahead =>
      rw [Valid, hahead] at h
      rw [advance_of_cons hahead]
      exact h.2.2

theorem Valid.lastStop_le_here {c : Cursor} (h : c.Valid) : c.lastStop ≤ c.here := by
  rw [Valid] at h
  cases hahead : c.ahead with
  | nil =>
      rw [hahead] at h
      have hhere : c.here = c.sourceStop := by simp [here, peek?, hahead]
      rw [hhere]
      exact h
  | cons lexeme ahead =>
      rw [hahead] at h
      simpa [here, peek?, hahead] using h.1

theorem Valid.lastStop_le_advance {c : Cursor} (h : c.Valid) : c.lastStop ≤ c.advance.lastStop := by
  cases hahead : c.ahead with
  | nil =>
      exact Nat.le_of_eq (congrArg lastStop (advance_of_nil hahead).symm)
  | cons lexeme ahead =>
      rw [Valid, hahead] at h
      rw [advance_of_cons hahead]
      exact Nat.le_trans h.1 (Nat.le_of_lt h.2.1)

theorem Valid.here_lt_advance {c : Cursor} (h : c.Valid) {lexeme : Lexeme} {ahead : List Lexeme}
    (hahead : c.ahead = lexeme :: ahead) : c.here < c.advance.lastStop := by
  rw [Valid, hahead] at h
  simpa [here, peek?, hahead, advance_of_cons hahead] using h.2.1

theorem Valid.here_le_advance {c : Cursor} (h : c.Valid) : c.here ≤ c.advance.here := by
  cases hahead : c.ahead with
  | nil =>
      exact Nat.le_of_eq (congrArg here (advance_of_nil hahead).symm)
  | cons lexeme ahead =>
      exact Nat.le_trans (Nat.le_of_lt (h.here_lt_advance hahead)) h.advance.lastStop_le_here

theorem here_of_peek? {c : Cursor} {lexeme : Lexeme} (h : c.peek? = some lexeme) :
    c.here = lexeme.start := by
  simp [here, h]

theorem lastStop_advance_of_peek? {c : Cursor} {lexeme : Lexeme} (h : c.peek? = some lexeme) :
    c.advance.lastStop = lexeme.stop := by
  obtain ⟨ahead, hahead⟩ := peek?_eq_some_iff.1 h
  rw [advance_of_cons hahead]

namespace Reaches

variable {c later : Cursor}

theorem valid (h : c.Reaches later) (hc : c.Valid) : later.Valid := by
  obtain ⟨n, rfl⟩ := h
  induction n generalizing c with
  | zero => exact hc
  | succ n ih => exact ih hc.advance

theorem lastStop_le (h : c.Reaches later) (hc : c.Valid) : c.lastStop ≤ later.lastStop := by
  obtain ⟨n, rfl⟩ := h
  induction n generalizing c with
  | zero => exact Nat.le_refl _
  | succ n ih => exact Nat.le_trans hc.lastStop_le_advance (ih hc.advance)

theorem here_le (h : c.Reaches later) (hc : c.Valid) : c.here ≤ later.here := by
  obtain ⟨n, rfl⟩ := h
  induction n generalizing c with
  | zero => exact Nat.le_refl _
  | succ n ih => exact Nat.le_trans hc.here_le_advance (ih hc.advance)

/-- A cursor that is reached without a stall has passed the next lexeme. -/
theorem passes (h : c.Reaches later) (hstalled : c.hasStalled later = false) : c.Passes later := by
  refine ⟨h, ?_⟩
  have hle := h.length_le
  simp only [hasStalled, beq_eq_false_iff_ne] at hstalled
  omega

end Reaches

namespace Passes

variable {c later last : Cursor}

theorem advance {lexeme : Lexeme} (h : c.peek? = some lexeme) : c.Passes c.advance := by
  obtain ⟨ahead, hahead⟩ := peek?_eq_some_iff.1 h
  refine ⟨.advance c, ?_⟩
  rw [advance_of_cons hahead, hahead]
  exact Nat.lt_succ_self _

theorem trans_reaches (h : c.Passes later) (h' : later.Reaches last) : c.Passes last :=
  ⟨h.1.trans h', Nat.lt_of_le_of_lt h'.length_le h.2⟩

theorem of_reaches (h : c.Reaches later) (h' : later.Passes last) : c.Passes last :=
  ⟨h.trans h'.1, Nat.lt_of_lt_of_le h'.2 h.length_le⟩

/-- The first lexeme taken ends where the last one ends, or before. -/
theorem here_lt_lastStop (h : c.Passes later) (hc : c.Valid) : c.here < later.lastStop := by
  obtain ⟨⟨n, rfl⟩, hlength⟩ := h
  cases n with
  | zero => exact absurd hlength (Nat.lt_irrefl _)
  | succ n =>
      cases hahead : c.ahead with
      | nil => rw [hahead] at hlength; exact absurd hlength (Nat.not_lt_zero _)
      | cons lexeme ahead =>
          have hrest := (Reaches.advanceBy c.advance n).lastStop_le hc.advance
          exact Nat.lt_of_lt_of_le (hc.here_lt_advance hahead) hrest

end Passes

/-! ### Lexemes that are taken -/

namespace Reaches

variable {c later : Cursor}

theorem mem_of_mem_ahead (h : c.Reaches later) {x : Lexeme} (hx : x ∈ later.ahead) : x ∈ c.ahead := by
  obtain ⟨n, rfl⟩ := h
  rw [ahead_advanceBy] at hx
  exact List.mem_of_mem_drop hx

/-- Where lexemes have been taken, the last one of them ends. -/
theorem lastStop_eq_or (h : c.Reaches later) :
    later.lastStop = c.lastStop ∨ ∃ x ∈ c.ahead, later.lastStop = x.stop := by
  obtain ⟨n, rfl⟩ := h
  induction n generalizing c with
  | zero => exact .inl rfl
  | succ n ih =>
      cases hahead : c.ahead with
      | nil =>
          have hstays := @ih c
          rw [hahead] at hstays
          rwa [Cursor.advanceBy, advance_of_nil hahead]
      | cons x ahead =>
          have hstep := @ih c.advance
          rw [advance_of_cons hahead] at hstep
          rw [Cursor.advanceBy, advance_of_cons hahead]
          rcases hstep with hstop | ⟨y, hy, hstop⟩
          · exact .inr ⟨x, List.mem_cons_self, hstop⟩
          · exact .inr ⟨y, List.mem_cons_of_mem _ hy, hstop⟩

end Reaches

theorem Passes.exists_lastStop {c later : Cursor} (h : c.Passes later) :
    ∃ x ∈ c.ahead, later.lastStop = x.stop := by
  obtain ⟨⟨n, rfl⟩, hlength⟩ := h
  cases hahead : c.ahead with
  | nil =>
      rw [hahead] at hlength
      exact absurd hlength (Nat.not_lt_zero _)
  | cons x ahead =>
      cases n with
      | zero => exact absurd hlength (Nat.lt_irrefl _)
      | succ n =>
          have hrest := (Reaches.advanceBy c.advance n).lastStop_eq_or
          rw [advance_of_cons hahead] at hrest
          rw [advanceBy, advance_of_cons hahead]
          rcases hrest with hstop | ⟨y, hy, hstop⟩
          · exact ⟨x, List.mem_cons_self, hstop⟩
          · exact ⟨y, List.mem_cons_of_mem _ hy, hstop⟩

end Cursor

/-! ### Nodes between two cursors -/

/-- The grammar reads the closure at the cursor or behind it. -/
def Grammar.ReadsClosure (c : Cursor) (node : Node) : Prop :=
  ∃ depth start later, c.Reaches start ∧ (Grammar.ofDepth depth).closure start = .ok (node, later)

/-- The grammar reads the loop at the cursor or behind it. -/
def Grammar.ReadsLoop (c : Cursor) (node : Node) : Prop :=
  ∃ depth start keyword later, c.Reaches start ∧ start.peek? = some keyword ∧
    (Grammar.ofDepth depth).forEach keyword start = .ok ([node], later)

/-- A closure or a loop over a sequence is one that the grammar reads at the cursor or behind it. -/
structure Grammar.IsRead (c : Cursor) (node : Node) : Prop where
  closure : node.kind = .closure → Grammar.ReadsClosure c node
  loop : node.kind = .forEach → Grammar.ReadsLoop c node

theorem Grammar.IsRead.of_reaches {c middle : Cursor} {node : Node} (h : c.Reaches middle)
    (hread : Grammar.IsRead middle node) : Grammar.IsRead c node where
  closure := fun hkind =>
    let ⟨depth, start, later, hstart, hclosure⟩ := hread.closure hkind
    ⟨depth, start, later, h.trans hstart, hclosure⟩
  loop := fun hkind =>
    let ⟨depth, start, keyword, later, hstart, hloop⟩ := hread.loop hkind
    ⟨depth, start, keyword, later, h.trans hstart, hloop⟩

/-- The nodes are arranged between the first lexeme ahead of the cursor and the last lexeme behind the
later one. They and the nodes below them end with lexemes, and the closures and the loops over sequences
among them are read in between. -/
structure Reads (c : Cursor) (nodes : List Node) (later : Cursor) : Prop where
  reaches : c.Reaches later
  arranged : Node.Arranged c.here later.lastStop nodes
  ends : ∀ node ∈ Node.listingAll nodes, ∃ x ∈ c.ahead, node.span.stop = x.stop
  isRead : ∀ node ∈ Node.listingAll nodes, Grammar.IsRead c node

namespace Reads

variable {c middle later : Cursor} {nodes more : List Node}

theorem skip (h : c.Reaches later) : Reads c [] later := ⟨h, .nil, by simp, by simp⟩

theorem append (hc : c.Valid) (h : Reads c nodes middle) (hmore : Reads middle more later) :
    Reads c (nodes ++ more) later := by
  have hmiddle := h.reaches.valid hc
  refine ⟨h.reaches.trans hmore.reaches, h.arranged.append hmore.arranged ?_ ?_ ?_, ?_, ?_⟩
  · exact h.reaches.here_le hc
  · exact hmiddle.lastStop_le_here
  · exact hmore.reaches.lastStop_le hmiddle
  · intro node hnode
    rw [Node.listingAll_append, List.mem_append] at hnode
    rcases hnode with hnode | hnode
    · exact h.ends node hnode
    · obtain ⟨x, hx, hstop⟩ := hmore.ends node hnode
      exact ⟨x, h.reaches.mem_of_mem_ahead hx, hstop⟩
  · intro node hnode
    rw [Node.listingAll_append, List.mem_append] at hnode
    rcases hnode with hnode | hnode
    · exact h.isRead node hnode
    · exact (hmore.isRead node hnode).of_reaches h.reaches

theorem trans_reaches (hc : c.Valid) (h : Reads c nodes middle) (hlater : middle.Reaches later) :
    Reads c nodes later := by
  simpa using h.append hc (skip hlater)

theorem of_reaches (hc : c.Valid) (h : c.Reaches middle) (hnodes : Reads middle nodes later) :
    Reads c nodes later :=
  append hc (skip h) hnodes

/-- A node from the first lexeme to the last one that is taken, around the nodes in between. -/
theorem node (hc : c.Valid) {node : Node} (hpasses : c.Passes later)
    (hspan : node.span = .ofBounds c.here later.lastStop)
    (hroot : Grammar.IsRead c node) (h : Reads c node.children later) :
    Reads c [node] later := by
  have hle := Nat.le_of_lt (hpasses.here_lt_lastStop hc)
  have hlocation : node.span.location = c.here := by rw [hspan, Span.location_ofBounds]
  have hstop : node.span.stop = later.lastStop := by rw [hspan, Span.stop_ofBounds hle]
  refine ⟨h.reaches, Node.arranged_singleton.2 ⟨?_, ?_, ?_⟩, ?_, ?_⟩
  · exact Nat.le_of_eq hlocation.symm
  · exact Nat.le_of_eq hstop
  · rw [hlocation, hstop]
    exact h.arranged
  · intro n hn
    rw [Node.listingAll_cons, Node.listing_eq, Node.listingAll_nil, List.append_nil] at hn
    rcases List.mem_cons.1 hn with rfl | hn
    · rw [hstop]
      exact hpasses.exists_lastStop
    · exact h.ends n hn
  · intro n hn
    rw [Node.listingAll_cons, Node.listing_eq, Node.listingAll_nil, List.append_nil] at hn
    rcases List.mem_cons.1 hn with rfl | hn
    · exact hroot
    · exact h.isRead n hn

end Reads

end SourceLint
