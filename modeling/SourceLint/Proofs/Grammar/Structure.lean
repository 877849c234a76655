import SourceLint.Grammar.Source
import SourceLint.Proofs.Basic
import SourceLint.Proofs.Grammar.Statements
import SourceLint.Proofs.Syntax.Nesting
import SourceLint.Proofs.Syntax.Unterminated

/-!
# Every source text has an arranged structure or a fault of its own

The forest of a source text is arranged within the text, and its tokens are in order. So putting both
together as a snapshot never finds fault with them: what is wrong with a source text is always a fault
of the text.
-/

namespace SourceLint

/-- The forest of a text is read from its first lexeme on. -/
theorem Grammar.reads_file {lexemes : List Lexeme} {sourceStop : Nat}
    (h : Lexeme.InOrder 0 sourceStop lexemes) :
    (Grammar.file lexemes sourceStop).Meets fun forest => ∃ later : Cursor,
      later.lastStop ≤ sourceStop ∧ Reads ⟨lexemes, 0, sourceStop⟩ forest later := by
  have hvalid : (Cursor.mk lexemes 0 sourceStop).Valid := h
  rw [Grammar.file]
  apply ((Grammar.sound_ofDepth _).statements hvalid .topLevel false).bind
  rintro ⟨nodes, later⟩ hnodes
  dsimp only
  split
  · exact Outcome.meets_unexpected _
  · have hlater := hnodes.reaches.valid hvalid
    have hsame : later.sourceStop = sourceStop := hnodes.reaches.sourceStop_eq
    have hstop : later.lastStop ≤ later.sourceStop := Lexeme.InOrder.least_le_most hlater
    exact ⟨later, hsame ▸ hstop, hnodes⟩

/-- The forest of a text is arranged within the text. -/
theorem Grammar.meets_file {lexemes : List Lexeme} {sourceStop : Nat}
    (h : Lexeme.InOrder 0 sourceStop lexemes) :
    (Grammar.file lexemes sourceStop).Meets (Node.Arranged 0 sourceStop) := by
  refine (Grammar.reads_file h).mono ?_
  rintro forest ⟨later, hstop, hreads⟩
  exact hreads.arranged.mono (Nat.zero_le _) hstop

namespace Snapshot

/-- The tokens and the forest of a text pass the check of a snapshot. -/
theorem parts_pass {source : String} {lexemes : List Lexeme} {forest : List Node}
    (hlexemes : Lexeme.ofSource source = .ok lexemes)
    (hforest : Grammar.file (Lexeme.significant "" lexemes) source.utf8ByteSize = .ok forest) :
    checkTokens source.utf8ByteSize 0 0 (lexemes.filterMap Lexeme.token?) = .ok () ∧
      Node.checkSiblings ⟨0, source.utf8ByteSize⟩ [] 0 0 forest = .ok () ∧
      Node.Arranged 0 source.utf8ByteSize forest := by
  have horder := Lexeme.inOrder_of_ofSource hlexemes
  have harranged := Grammar.meets_file (horder.significant "")
  rw [hforest] at harranged
  refine ⟨horder.checkTokens (Nat.le_refl _) 0, ?_, harranged⟩
  exact Node.Arranged.checkSiblings harranged [] 0 (Nat.le_refl _) (by simp [Span.stop])

/-- A source text has a snapshot when its lexemes can be read as a file. -/
theorem ofSource_eq_ok_iff {source : String} {snapshot : Snapshot} :
    ofSource source = .ok snapshot ↔ ∃ lexemes forest, Lexeme.ofSource source = .ok lexemes ∧
      Grammar.file (Lexeme.significant "" lexemes) source.utf8ByteSize = .ok forest ∧
      snapshot = ⟨forest, TokenStream.ofList (lexemes.filterMap Lexeme.token?)⟩ := by
  constructor
  · intro h
    rw [ofSource] at h
    cases hlexemes : Lexeme.ofSource source with
    | error e =>
        rw [hlexemes] at h
        cases h
    | ok lexemes =>
        simp only [hlexemes, bind, Except.bind] at h
        split at h
        · rename_i forest hforest
          exact ⟨lexemes, forest, rfl, hforest, (assemble_eq_ok_iff.1 h).2.2⟩
        · cases h
        · cases h
  · rintro ⟨lexemes, forest, hlexemes, hforest, rfl⟩
    obtain ⟨htokens, hnodes, -⟩ := parts_pass hlexemes hforest
    simp only [ofSource, hlexemes, bind, Except.bind, hforest]
    exact assemble_eq_ok_iff.2 ⟨htokens, hnodes, rfl⟩

/-- The closures and the loops of a source text are read at its first lexeme or behind it. -/
theorem isRead_of_mem {source : String} {snapshot : Snapshot} {lexemes : List Lexeme} {node : Node}
    (hsnapshot : ofSource source = .ok snapshot) (hlexemes : Lexeme.ofSource source = .ok lexemes)
    (hnode : node ∈ Node.listingAll snapshot.forest) :
    Grammar.IsRead ⟨Lexeme.significant "" lexemes, 0, source.utf8ByteSize⟩ node := by
  obtain ⟨found, forest, hfound, hforest, rfl⟩ := ofSource_eq_ok_iff.1 hsnapshot
  obtain rfl := Except.ok.inj (hfound.symm.trans hlexemes)
  have horder := (Lexeme.inOrder_of_ofSource hlexemes).significant ""
  obtain ⟨later, -, hreads⟩ := (Grammar.reads_file horder).of_ok hforest
  exact hreads.isRead node hnode

/-- What is wrong with a source text is a fault of the text. -/
theorem onlyTextFaults_ofSource (source : String) : Lexeme.OnlyTextFaults (ofSource source) := by
  intro e he
  rw [ofSource] at he
  cases hlexemes : Lexeme.ofSource source with
  | error e' =>
      rw [hlexemes] at he
      obtain rfl : e' = e := Except.error.inj he
      exact (Lexeme.failsWith_ofSource source e' hlexemes).isOfText
  | ok lexemes =>
      have hfile := Grammar.meets_file ((Lexeme.inOrder_of_ofSource hlexemes).significant "")
      simp only [hlexemes, bind, Except.bind] at he
      cases hforest : Grammar.file (Lexeme.significant "" lexemes) source.utf8ByteSize with
      | ok forest =>
          obtain ⟨htokens, hnodes, -⟩ := parts_pass hlexemes hforest
          simp [hforest, assemble, TokenStream.toList, TokenStream.ofList, htokens, hnodes] at he
      | error failure =>
          rw [hforest] at he hfile
          cases failure with
          | fault error => exact Except.error.inj he ▸ hfile
          | exhausted => exact Except.error.inj he ▸ trivial

/-- Reading a source text never finds fault with a structure. When the text has lexemes and a forest,
its tokens and its forest pass the check of a snapshot, and at every depth the nodes come one after the
other within their parent, the roots within the text. -/
theorem ofSource_wellArranged (source : String) :
    (∀ fault, ofSource source ≠ .error (.malformed fault)) ∧
    ∀ lexemes forest, Lexeme.ofSource source = .ok lexemes →
      Grammar.file (Lexeme.significant "" lexemes) source.utf8ByteSize = .ok forest →
      checkTokens source.utf8ByteSize 0 0 (lexemes.filterMap Lexeme.token?) = .ok () ∧
        Node.checkSiblings ⟨0, source.utf8ByteSize⟩ [] 0 0 forest = .ok () ∧
        Node.Arranged 0 source.utf8ByteSize forest := by
  refine ⟨fun fault h => ?_, fun lexemes forest => parts_pass⟩
  exact onlyTextFaults_ofSource source _ h

/-- A call that a trailing closure ends, with a call inside the closure. -/
theorem ofSource_wellArranged_closure :
    ∃ lexemes forest, Lexeme.ofSource "f(x) { g(a) }" = .ok lexemes ∧
      Grammar.file (Lexeme.significant "" lexemes) 13 = .ok forest ∧
      (Node.listingAll forest).map Node.kind = [.call, .closure, .call] ∧
      Node.Arranged 0 13 forest := by
  have hread : ((Lexeme.ofSource "f(x) { g(a) }").toOption.any fun lexemes =>
      (Grammar.file (Lexeme.significant "" lexemes) 13).toOption.any fun forest =>
        (Node.listingAll forest).map Node.kind == [.call, .closure, .call]) = true := by
    decide +kernel
  obtain ⟨lexemes, hlexemes, hread⟩ := exists_of_toOption_any hread
  obtain ⟨forest, hforest, hkinds⟩ := exists_of_toOption_any hread
  have hparts := (ofSource_wellArranged "f(x) { g(a) }").2 lexemes forest hlexemes hforest
  exact ⟨lexemes, forest, hlexemes, hforest, eq_of_beq hkinds, hparts.2.2⟩

end Snapshot

end SourceLint
