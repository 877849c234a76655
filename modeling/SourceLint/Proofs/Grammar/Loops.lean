import SourceLint.Proofs.Grammar.Closures

/-!
# The parts of a loop over a sequence

The children of a loop over a sequence are the nodes of the sequence, then those of its condition, then its body,
and nothing in the node tells where the condition begins. The places do: the nodes of the sequence lie within the
second element of the loop, and those of the condition stand behind it and behind the word `where`.
-/

namespace SourceLint.Grammar

variable {g : Grammar} {c : Cursor}

/-- The nodes that the parts of a loop over a sequence give, and the spans of its pattern and its sequence. -/
structure LoopParts where
  pattern : Span
  sequence : Span
  nodes : List Node
  condition : List Node
  body : Node

/-- A loop over a sequence with these parts: each part stands behind the one before, and there is a condition only
behind a `where` that is one of the lexemes. -/
structure LoopParts.Make (parts : LoopParts) (lexemes : List Lexeme) (node : Node) : Prop where
  kind : node.kind = .forEach
  elements : node.elements = [⟨.id, parts.pattern⟩, ⟨.expr, parts.sequence⟩]
  children : node.children = parts.nodes ++ parts.condition ++ [parts.body]
  body : parts.body.kind = .brace
  patternBegins : node.span.location < parts.pattern.location
  patternEnds : parts.pattern.stop < parts.sequence.location
  arranged : Node.Arranged parts.sequence.location parts.sequence.stop parts.nodes
  condition : ∀ inner ∈ Node.listingAll parts.condition, ∃ x ∈ lexemes, x.isKeyword "where" = true ∧
    parts.sequence.stop ≤ x.start ∧ x.stop ≤ inner.span.location

/-! ### Parts that are read one after the other -/

/-- A block is a node of its own kind. -/
theorem kind_of_block {start later : Cursor} {node : Node} (h : g.block start = .ok (node, later)) :
    node.kind = .brace := by
  rw [block] at h
  obtain ⟨⟨opener, inside⟩, -, h⟩ := Outcome.exists_of_bind h
  dsimp only at h
  obtain ⟨⟨statements, last⟩, -, h⟩ := Outcome.exists_of_bind h
  dsimp only at h
  obtain ⟨⟨closer, behind⟩, -, h⟩ := Outcome.exists_of_bind h
  obtain ⟨rfl, -⟩ := Prod.mk.inj (Except.ok.inj h)
  rfl

/-- The pattern of a loop ends no later than the `in` behind it begins. -/
theorem meets_skipLoopPattern_between {sourceStop depth patternStop lastStop first : Nat} {ahead : List Lexeme}
    (hc : (Cursor.mk ahead lastStop sourceStop).Valid) (hfirst : first ≤ patternStop)
    (hhere : patternStop ≤ (Cursor.mk ahead lastStop sourceStop).here) :
    (skipLoopPattern sourceStop depth patternStop lastStop ahead).Meets fun r =>
      first ≤ r.1 ∧ r.1 ≤ r.2.here ∧ ∃ x, r.2.peek? = some x := by
  induction ahead generalizing depth patternStop lastStop with
  | nil => exact Outcome.meets_expected _ _
  | cons x ahead ih =>
      have hnext : ∀ depth, (skipLoopPattern sourceStop depth x.stop x.stop ahead).Meets fun r =>
          first ≤ r.1 ∧ r.1 ≤ r.2.here ∧ ∃ x, r.2.peek? = some x := by
        intro depth
        have hpassed : patternStop < x.stop := Nat.lt_of_le_of_lt hhere (hc.here_lt_advance rfl)
        exact ih hc.advance (by omega) hc.advance.lastStop_le_here
      unfold skipLoopPattern
      dsimp only
      split
      · exact ⟨hfirst, hhere, x, rfl⟩
      · split
        · exact Outcome.meets_expected _ _
        · split
          · exact hnext _
          · split
            · split
              · exact Outcome.meets_unexpected _
              · exact hnext _
            · exact hnext _

/-- What a condition reads stands behind the `where` at the cursor. -/
theorem Sound.meets_whereClause_behind (hg : g.Sound) (hc : c.Valid) :
    (g.whereClause c).Meets fun r => ∀ inner ∈ Node.listingAll r.1,
      ∃ x, c.peek? = some x ∧ x.isKeyword "where" = true ∧ x.stop ≤ inner.span.location := by
  rw [Grammar.whereClause]
  split
  · rename_i hwhere
    obtain ⟨x, hpeek, hword⟩ := (Option.any_eq_true _ _).1 hwhere
    apply (hg.expression hc.advance false).bind
    rintro ⟨found, later⟩ hfound inner hinner
    refine ⟨x, hpeek, hword, ?_⟩
    calc x.stop
      _ = c.advance.lastStop := (Cursor.lastStop_advance_of_peek? hpeek).symm
      _ ≤ c.advance.here := hc.advance.lastStop_le_here
      _ ≤ inner.span.location := (hfound.arranged.of_mem_listingAll hinner).1
  · intro inner hinner
    simp at hinner

/-- A loop over a sequence has a pattern, an `in`, a sequence, maybe a condition, and a block. -/
theorem exists_parts_of_forEach {start later : Cursor} {keyword : Lexeme} {nodes : List Node}
    (h : g.forEach keyword start = .ok (nodes, later)) :
    ∃ first patternStop atIn sequence behind condition last body, start.advance.Reaches first ∧
      skipLoopPattern first.sourceStop 0 first.here first.lastStop first.ahead = .ok (patternStop, atIn) ∧
      g.expression false atIn.advance = .ok (sequence, behind) ∧
      g.whereClause behind = .ok (condition, last) ∧ g.block last = .ok (body, later) ∧
      nodes = [{ kind := .forEach, span := .ofBounds keyword.start later.lastStop
                 elements := [⟨.id, .ofBounds first.here patternStop⟩,
                   ⟨.expr, .ofBounds atIn.advance.here behind.lastStop⟩]
                 children := sequence.nodes ++ condition ++ [body] }] := by
  rw [forEach] at h
  dsimp only at h
  generalize hfirst : start.advance.advanceBy _ = first at h
  obtain ⟨⟨patternStop, atIn⟩, hpattern, h⟩ := Outcome.exists_of_bind h
  dsimp only at h
  obtain ⟨⟨sequence, behind⟩, hsequence, h⟩ := Outcome.exists_of_bind h
  dsimp only at h
  split at h
  · cases h
  · obtain ⟨⟨condition, last⟩, hcondition, h⟩ := Outcome.exists_of_bind h
    dsimp only at h
    obtain ⟨⟨body, end'⟩, hbody, h⟩ := Outcome.exists_of_bind h
    obtain ⟨rfl, rfl⟩ := Prod.mk.inj (Except.ok.inj h)
    exact ⟨first, patternStop, atIn, sequence, behind, condition, last, body, ⟨_, hfirst.symm⟩, hpattern,
      hsequence, hcondition, hbody, rfl⟩

/-! ### Loops -/

/-- A loop that the grammar reads has its parts one behind the other. -/
theorem exists_make_of_readsLoop {node : Node} (hc : c.Valid) (h : ReadsLoop c node) :
    ∃ parts : LoopParts, parts.Make c.ahead node := by
  obtain ⟨depth, start, keyword, later, hstart, hkeyword, hread⟩ := h
  have hg := sound_ofDepth depth
  have hvalid := hstart.valid hc
  obtain ⟨first, patternStop, atIn, sequence, behind, condition, last, body, hfirst, hpattern, hsequence,
    hcondition, hbody, hnode⟩ := exists_parts_of_forEach hread
  obtain rfl := List.singleton_inj.1 hnode
  have hfirstValid := hfirst.valid hvalid.advance
  have hatIn : first.Reaches atIn := (meets_skipLoopPattern _ _ _ _ _).of_ok hpattern
  obtain ⟨hbegins, hends, x, hin⟩ :=
    (meets_skipLoopPattern_between hfirstValid (Nat.le_refl _) (Nat.le_refl _)).of_ok hpattern
  have hatInValid := hatIn.valid hfirstValid
  have hreads := (hg.expression hatInValid.advance false).of_ok hsequence
  have hbehindValid := hreads.reaches.valid hatInValid.advance
  have hwhere := (hg.meets_whereClause_behind hbehindValid).of_ok hcondition
  have hlater : c.Reaches behind := hstart.trans (.trans (.advance start) (.trans hfirst (.trans hatIn
    (.trans (.advance atIn) hreads.reaches))))
  refine ⟨⟨.ofBounds first.here patternStop, .ofBounds atIn.advance.here behind.lastStop, sequence.nodes, condition,
    body⟩, ?_⟩
  constructor
  case kind => rfl
  case elements => rfl
  case children => rfl
  case body => exact kind_of_block hbody
  case patternBegins =>
    calc keyword.start
      _ = start.here := (Cursor.here_of_peek? hkeyword).symm
      _ < start.advance.lastStop := (Cursor.Passes.advance hkeyword).here_lt_lastStop hvalid
      _ ≤ start.advance.here := hvalid.advance.lastStop_le_here
      _ ≤ first.here := hfirst.here_le hvalid.advance
  case patternEnds =>
    calc (Span.ofBounds first.here patternStop).stop
      _ = patternStop := Span.stop_ofBounds hbegins
      _ ≤ atIn.here := hends
      _ < atIn.advance.lastStop := (Cursor.Passes.advance hin).here_lt_lastStop hatInValid
      _ ≤ atIn.advance.here := hatInValid.advance.lastStop_le_here
  case arranged =>
    exact hreads.arranged.mono (Nat.le_refl _) (by simp only [Span.ofBounds, Span.stop]; omega)
  case condition =>
    intro inner hinner
    obtain ⟨x, hpeek, hword, hstop⟩ := hwhere inner hinner
    obtain ⟨ahead, hahead⟩ := Cursor.peek?_eq_some_iff.1 hpeek
    refine ⟨x, hlater.mem_of_mem_ahead (hahead ▸ List.mem_cons_self), hword, ?_, hstop⟩
    have hbefore : atIn.advance.here ≤ x.start :=
      Cursor.here_of_peek? hpeek ▸ hreads.reaches.here_le hatInValid.advance
    have hend : behind.lastStop ≤ x.start := Cursor.here_of_peek? hpeek ▸ hbehindValid.lastStop_le_here
    simp only [Span.ofBounds, Span.stop]
    omega

end SourceLint.Grammar

namespace SourceLint.Snapshot

/-- Every loop over a sequence in the tree of a text has its parts one behind the other. -/
theorem exists_make_of_ofSource {source : String} {snapshot : Snapshot} {lexemes : List Lexeme}
    (hsnapshot : ofSource source = .ok snapshot) (hlexemes : Lexeme.ofSource source = .ok lexemes) {node : Node}
    (hnode : node ∈ Node.listingAll snapshot.forest) (hkind : node.kind = .forEach) :
    ∃ parts : Grammar.LoopParts, parts.Make (Lexeme.significant "" lexemes) node := by
  have hvalid : (Cursor.mk (Lexeme.significant "" lexemes) 0 source.utf8ByteSize).Valid :=
    (Lexeme.inOrder_of_ofSource hlexemes).significant ""
  exact Grammar.exists_make_of_readsLoop hvalid ((isRead_of_mem hsnapshot hlexemes hnode).loop hkind)

end SourceLint.Snapshot
