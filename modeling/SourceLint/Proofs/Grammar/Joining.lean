import SourceLint.Proofs.Grammar.Embedding.Statements
import SourceLint.Proofs.Grammar.Entering
import SourceLint.Proofs.Grammar.Structure
import SourceLint.Proofs.Syntax.Restarting

/-!
# Two texts with a separator between them

A file is a run of statements, so two files can be put one behind the other with a semicolon on a line of
its own between them: the forest of the whole is the forest of the first one with that of the second one
behind it. The first text must not end inside something that is still looked for behind the separator.

## Main results

* `Grammar.file_append_separated` — the forest of two texts with a separator between them.
-/

namespace SourceLint

namespace Grammar

variable {g g' : Grammar} {scope : Scope} {inSwitch : Bool} {c d : Cursor}

/-! ### Runs of statements -/

/-- A text is read as a run of statements that comes to the end of the text. -/
theorem file_eq_ok_iff {lexemes : List Lexeme} {sourceStop : Nat} {forest : List Node} :
    file lexemes sourceStop = .ok forest ↔ ∃ c, c.ahead = [] ∧
      boundedRounds ((ofDepth (2 * lexemes.length + 1)).statementRound .topLevel false) lexemes []
        ⟨lexemes, 0, sourceStop⟩ = .ok (forest, c) := by
  have hfile : file lexemes sourceStop =
      (boundedRounds ((ofDepth (2 * lexemes.length + 1)).statementRound .topLevel false) lexemes []
        ⟨lexemes, 0, sourceStop⟩).bind fun r =>
          r.2.peek?.elim (.ok r.1) Outcome.unexpected := by
    refine congrArg (Except.bind _) (funext ?_)
    rintro ⟨nodes, ⟨_ | ⟨stray, ahead⟩, lastStop, stop⟩⟩
    · rfl
    · rfl
  rw [hfile]
  cases boundedRounds ((ofDepth (2 * lexemes.length + 1)).statementRound .topLevel false) lexemes []
      ⟨lexemes, 0, sourceStop⟩ with
  | error failure =>
      constructor
      · rintro ⟨⟩
      · rintro ⟨c, -, ⟨⟩⟩
  | ok r =>
      obtain ⟨nodes, ⟨ahead, lastStop, stop⟩⟩ := r
      cases ahead with
      | nil =>
          constructor
          · rintro ⟨⟩
            exact ⟨_, rfl, rfl⟩
          · rintro ⟨c, -, ⟨⟩⟩
            rfl
      | cons stray ahead =>
          constructor
          · rintro ⟨⟩
          · rintro ⟨c, hnil, ⟨⟩⟩
            cases hnil

/-- A run of statements comes to its end where it is. -/
theorem statementRound_done {nodes forest : List Node}
    (h : g.statementRound scope inSwitch nodes c = .ok (.done forest, d)) :
    forest = nodes ∧ d = c := by
  rw [statementRound] at h
  split at h
  · cases h
    exact ⟨rfl, rfl⟩
  · dsimp only at h
    split at h
    · cases h
      exact ⟨rfl, rfl⟩
    · split at h
      · cases h
      · split at h
        · cases h
        · obtain ⟨_, -, hlater⟩ := Outcome.exists_of_bind h
          cases hlater

/-- What has been read before a statement stays before it. -/
theorem follows_statementRound_append (front nodes : List Node) (c : Cursor) :
    Outcome.Follows
      (Round.Lockstep (fun s d s' d' => s' = front ++ s ∧ d' = d) fun r r' => r' = (front ++ r.1, r.2))
      (g.statementRound scope inSwitch nodes c) (g.statementRound scope inSwitch (front ++ nodes) c) := by
  rw [statementRound, statementRound]
  split
  · exact .ok rfl
  · dsimp only
    split
    · exact .ok rfl
    · split
      · exact .ok ⟨rfl, rfl⟩
      · split
        · exact Outcome.follows_error _
        · rintro r hr
          obtain ⟨⟨more, later⟩, hstatement, hlater⟩ := Outcome.exists_of_bind hr
          cases hlater
          rw [hstatement]
          exact ⟨_, rfl, List.append_assoc _ _ _, rfl⟩

/-- A run of statements is the same behind others. -/
theorem boundedRounds_statementRound_append {bound bound' : List Lexeme} {nodes : List Node}
    {r : List Node × Cursor} (front : List Node)
    (h : boundedRounds (g.statementRound scope inSwitch) bound nodes c = .ok r)
    (hbound : bound.length ≤ bound'.length) :
    boundedRounds (g.statementRound scope inSwitch) bound' (front ++ nodes) c =
      .ok (front ++ r.1, r.2) := by
  have hfollows : Outcome.FollowsUnless (fun _ => False) (fun r r' => r' = (front ++ r.1, r.2))
      (boundedRounds (g.statementRound scope inSwitch) bound nodes c)
      (boundedRounds (g.statementRound scope inSwitch) bound' (front ++ nodes) c) := by
    refine followsUnless_boundedRounds (E := fun _ => False)
      (S := fun s d s' d' => s' = front ++ s ∧ d' = d) ?_ (fun _ _ _ hnever => hnever.elim) hbound
      ⟨rfl, rfl⟩
    rintro s d _ _ ⟨rfl, rfl⟩
    exact (follows_statementRound_append front s _).unless
  obtain ⟨r', hr', rfl⟩ := hfollows r h not_false
  exact hr'

end Grammar

/-! ### The text before the separator -/

/-- A run of statements that comes to the end of its text comes there in the other text as well, and goes
on behind the text. -/
theorem Embedding.Follows.exists_behind {e : Embedding} {g g' : Grammar} {scope : Scope}
    {c c' d : Cursor} {bound bound' : List Lexeme} {nodes forest : List Node} {n : Nat}
    (hg : e.Follows g g') (h : e.Beside c c')
    (hrun : boundedRounds (g.statementRound scope false) bound nodes c = .ok (forest, d))
    (hbound : bound.length + n ≤ bound'.length) :
    ∃ behind d', n ≤ behind.length ∧ e.Beside d d' ∧
      boundedRounds (g'.statementRound scope false) bound' (e.nodes nodes) c' =
        boundedRounds (g'.statementRound scope false) behind (e.nodes forest) d' := by
  induction bound generalizing nodes c c' bound' with
  | nil =>
      obtain hdone | ⟨_, _, _, _, hnil, -⟩ := boundedRounds_eq_ok_iff.1 hrun
      · obtain ⟨rfl, rfl⟩ := Grammar.statementRound_done hdone
        exact ⟨bound', c', Nat.le_trans (Nat.le_add_left _ _) hbound, h, rfl⟩
      · cases hnil
  | cons lexeme bound ih =>
      obtain hdone | ⟨_, _, s, later, hcons, hagain, hlater⟩ := boundedRounds_eq_ok_iff.1 hrun
      · obtain ⟨rfl, rfl⟩ := Grammar.statementRound_done hdone
        exact ⟨bound', c', Nat.le_trans (Nat.le_add_left _ _) hbound, h, rfl⟩
      · obtain ⟨-, rfl⟩ := List.cons.inj hcons
        have hinside : c.ahead ≠ [] := by
          intro hnil
          rw [statementRound_of_nil hnil] at hagain
          cases hagain
        obtain ⟨⟨s' | b', later'⟩, hagain', hpair⟩ :=
          hg.statementRound h.onward scope false nodes hinside _ hagain
        · obtain ⟨rfl, honward⟩ := hpair
          cases bound' with
          | nil =>
              rw [List.length_cons, List.length_nil] at hbound
              omega
          | cons lexeme' bound' =>
              rw [List.length_cons, List.length_cons] at hbound
              have hshorter : bound.length + n ≤ bound'.length := by omega
              obtain ⟨behind, d', hn, hd, hsame⟩ := ih honward.1 hlater hshorter
              refine ⟨behind, d', hn, hd, ?_⟩
              rw [boundedRounds.eq_def, hagain']
              exact hsame
        · exact hpair.elim

/-! ### Texts behind other bytes -/

namespace Embedding

/-- The text stands behind other bytes and before the lexemes `rest`. -/
def shift (more : Nat) (rest : List Lexeme)
    (separated : rest.head?.all (fun l => l.isSymbol ";" && l.isOnNewLine) = true) : Embedding where
  toRelocation := .shift more
  rest := rest
  separated := separated
  IsEnd _ := True
  offset_inj _ _ _ _ h := Nat.add_left_cancel h

variable {k : Nat} {lexemes rest : List Lexeme} {sourceStop : Nat}
    {hrest : rest.head?.all (fun l => l.isSymbol ";" && l.isOnNewLine) = true}

theorem twin_shift (x : Lexeme) : (shift k rest hrest).Twin x (x.shift k) where
  kind := rfl
  isOnNewLine := rfl
  text := .inl rfl
  isApart := rfl
  renamed := rfl
  start := rfl
  stop := Nat.add_assoc _ _ _
  isEnd := trivial
  gap := rfl

theorem beside_shift (horder : Lexeme.InOrder 0 sourceStop lexemes)
    (hcontained : rest = [] ∨ Grammar.isContained sourceStop lexemes = true) (sourceStop' : Nat) :
    (shift k rest hrest).Beside ⟨lexemes, 0, sourceStop⟩
      ⟨lexemes.map (Lexeme.shift k) ++ rest, k, sourceStop'⟩ where
  ahead := ⟨lexemes.map (Lexeme.shift k),
    List.forall₂_map_right_iff.2 (List.forall₂_same.2 fun x _ => twin_shift x), rfl⟩
  lastStop := rfl
  isEnd := trivial
  valid := horder
  contained := hcontained

end Embedding

/-! ### Files -/

namespace Grammar

variable {lexemes others : List Lexeme} {sourceStop sourceStop' depth k lastStop : Nat}
    {forest more : List Node}

/-- Behind other bytes a text has its statements, at their new places. -/
theorem exists_statements_shift (horder : Lexeme.InOrder 0 sourceStop lexemes)
    (hfile : file lexemes sourceStop = .ok forest) (hdepth : 2 * lexemes.length + 1 ≤ depth)
    (k sourceStop' : Nat) :
    ∃ d, d.ahead = [] ∧ (ofDepth depth).statementsBody .topLevel false
      ⟨lexemes.map (Lexeme.shift k), k, sourceStop'⟩ = .ok ((Relocation.shift k).nodes forest, d) := by
  obtain ⟨c, hend, hrun⟩ := file_eq_ok_iff.1 hfile
  have hg : (Embedding.shift k [] rfl).Follows (ofDepth (2 * lexemes.length + 1)) (ofDepth depth) :=
    Embedding.follows_ofDepth hdepth (.inl rfl)
  have hstart : (Embedding.shift k [] rfl).Beside ⟨lexemes, 0, sourceStop⟩
      ⟨lexemes.map (Lexeme.shift k) ++ [], k, sourceStop'⟩ := Embedding.beside_shift horder (.inl rfl) _
  obtain ⟨⟨_, d⟩, hd, rfl, honward⟩ :=
    hg.statementsBody hstart .topLevel false _ hrun fun hover => hover.1 rfl
  rw [List.append_nil] at hd
  exact ⟨d, honward.1.ahead_of_nil hend, hd⟩

/-- Where a text begins does not matter for its statements. -/
theorem exists_statements_widenGap {g : Grammar} {d : Cursor} 
    (hg : EntersAlike g) (hend : d.ahead = [])
    (h : g.statementsBody scope false ⟨lexemes, lastStop, sourceStop⟩ = .ok (forest, d))
    (gap : String) (lastStop' : Nat) :
    ∃ d', d'.ahead = [] ∧ g.statementsBody scope false
      ⟨Lexeme.widenGap gap lexemes, lastStop', sourceStop⟩ = .ok (forest, d') := by
  cases lexemes with
  | nil =>
      refine ⟨⟨[], lastStop', sourceStop⟩, rfl, ?_⟩
      cases h
      rfl
  | cons x lexemes =>
      have hentry := Cursor.SameEntry.intro x (gap ++ x.gap) lexemes lastStop lastStop' sourceStop
      obtain ⟨r, hr, rfl | ⟨-, hstalled, -⟩⟩ := hg.statementsBody hentry scope false _ h
      · exact ⟨d, hend, hr⟩
      · rw [show d = _ from hstalled] at hend
        cases hend

/-! ### Both texts -/

/-- Behind a separator a text has its statements, and what has been read before stays before them. -/
theorem exists_statements_separated {c : Cursor} {separator : Lexeme} {gap : String} {bound : List Lexeme}
    (horder : Lexeme.InOrder 0 sourceStop lexemes) (hfile : file lexemes sourceStop = .ok forest)
    (hdepth : 2 * lexemes.length + 1 ≤ depth)
    (hahead : c.ahead = separator :: Lexeme.widenGap gap (lexemes.map (Lexeme.shift k)))
    (hseparator : separator.isSymbol ";" = true) (hbound : 1 + lexemes.length ≤ bound.length)
    (front : List Node) :
    ∃ d, d.ahead = [] ∧ boundedRounds ((ofDepth depth).statementRound .topLevel false) bound front c =
      .ok (front ++ (Relocation.shift k).nodes forest, d) := by
  obtain ⟨ahead, lastStop, stop⟩ := c
  obtain rfl : ahead = _ := hahead
  obtain ⟨d, hd, hshifted⟩ := exists_statements_shift horder hfile hdepth k stop
  obtain ⟨d', hd', hbehind⟩ :=
    exists_statements_widenGap (entersAlike_ofDepth depth) hd hshifted gap separator.stop
  cases bound with
  | nil => simp at hbound
  | cons lexeme bound =>
      have hlength : (Lexeme.widenGap gap (lexemes.map (Lexeme.shift k))).length ≤ bound.length := by
        rw [Lexeme.length_widenGap, List.length_map]
        rw [List.length_cons] at hbound
        omega
      have hstatements := boundedRounds_statementRound_append front hbehind hlength
      rw [List.append_nil] at hstatements
      refine ⟨d', hd', boundedRounds_eq_ok_iff.2 (.inr ⟨_, _, front, _, rfl, ?_, hstatements⟩)⟩
      exact statementRound_of_semicolon rfl hseparator _ _ _

/-- The forest of two texts with a separator between them is the forest of the first one with that of the
second one behind it. -/
theorem file_append_separated {separator : Lexeme} (horder : Lexeme.InOrder 0 sourceStop lexemes)
    (horder' : Lexeme.InOrder 0 sourceStop' others) (hfirst : file lexemes sourceStop = .ok forest)
    (hcontained : isContained sourceStop lexemes = true)
    (hseparator : separator.isSymbol ";" = true ∧ separator.isOnNewLine = true)
    (hsecond : file others sourceStop' = .ok more) (gap : String) (k stop : Nat) :
    file (lexemes ++ separator :: Lexeme.widenGap gap (others.map (Lexeme.shift k))) stop =
      .ok (forest ++ (Relocation.shift k).nodes more) := by
  generalize hjoined :
    lexemes ++ separator :: Lexeme.widenGap gap (others.map (Lexeme.shift k)) = joined
  have hlength : joined.length = lexemes.length + (1 + others.length) := by
    rw [← hjoined, List.length_append, List.length_cons, Lexeme.length_widenGap, List.length_map,
      Nat.add_comm 1]
  have hrest : (separator :: Lexeme.widenGap gap (others.map (Lexeme.shift k))).head?.all
      (fun l => l.isSymbol ";" && l.isOnNewLine) = true := by
    rw [List.head?_cons, Option.all_some, hseparator.1, hseparator.2]
    rfl
  have hdepth : 2 * lexemes.length + 1 < 2 * joined.length + 1 := by omega
  have hdepth' : 2 * others.length + 1 ≤ 2 * joined.length + 1 := by omega
  have hg : (Embedding.shift 0 _ hrest).Follows (ofDepth (2 * lexemes.length + 1))
      (ofDepth (2 * joined.length + 1)) :=
    Embedding.follows_ofDepth (Nat.le_of_lt hdepth) (.inr hdepth)
  have hstart : (Embedding.shift 0 _ hrest).Beside ⟨lexemes, 0, sourceStop⟩ ⟨joined, 0, stop⟩ := by
    have hshifted : (Embedding.shift 0 _ hrest).Beside ⟨lexemes, 0, sourceStop⟩
        ⟨lexemes.map (Lexeme.shift 0) ++ _, 0, stop⟩ := Embedding.beside_shift horder (.inr hcontained) stop
    rwa [Lexeme.map_shift_zero, hjoined] at hshifted
  obtain ⟨c, hend, hrun⟩ := file_eq_ok_iff.1 hfirst
  obtain ⟨bound, d, hbound, hd, hfront⟩ :=
    hg.exists_behind hstart hrun (Nat.le_of_eq hlength.symm)
  obtain ⟨last, hlast, hbehind⟩ := exists_statements_separated horder' hsecond hdepth' (hd.ahead_of_nil hend)
    hseparator.1 hbound forest
  refine file_eq_ok_iff.2 ⟨last, hlast, ?_⟩
  have hkeep : (Embedding.shift 0 _ hrest).nodes forest = forest := Relocation.nodes_shift_zero forest
  have hnone : (Embedding.shift 0 _ hrest).nodes [] = [] := Relocation.nodes_nil _
  rw [hkeep, hnone] at hfront
  rw [hfront, hbehind]

end Grammar

/-! ### Source texts -/

/-- The token in a text with some bytes put before it. -/
def Token.shift (more : Nat) (token : Token) : Token := { token with span := token.span.shift more }

namespace Lexeme

theorem filterMap_token?_map_shift (k : Nat) (lexemes : List Lexeme) :
    (lexemes.map (shift k)).filterMap token? = (lexemes.filterMap token?).map (Token.shift k) := by
  rw [List.filterMap_map, List.map_filterMap]
  refine List.filterMap_congr fun x _ => ?_
  rw [Function.comp, token?, token?, shift]
  cases x.kind with
  | token kind => rfl
  | punctuation => rfl

theorem filterMap_token?_widenGap (front : String) (lexemes : List Lexeme) :
    (widenGap front lexemes).filterMap token? = lexemes.filterMap token? := by
  cases lexemes with
  | nil => rfl
  | cons x lexemes => rfl

end Lexeme

namespace Snapshot

/-- Two texts that can be read can be read with a semicolon on a line of its own between them, when nothing
at the end of the first one reaches behind it. The structure of the second one is found behind that of the
first one, at its new places. -/
theorem ofSource_append_separated {front back : String} {lexemes : List Lexeme}
    {first second : Snapshot} (hlexemes : Lexeme.ofSource front = .ok lexemes)
    (hcontained :
      Grammar.isContained front.utf8ByteSize (Lexeme.significant "" lexemes) = true)
    (hfirst : ofSource front = .ok first) (hsecond : ofSource back = .ok second) :
    ofSource (front ++ "\n;\n" ++ back) =
      .ok ⟨first.forest ++ (Relocation.shift (front.utf8ByteSize + 3)).nodes second.forest,
        .ofList (first.tokens.toList ++
          second.tokens.toList.map (Token.shift (front.utf8ByteSize + 3)))⟩ := by
  obtain ⟨found, forest, hfound, hforest, rfl⟩ := ofSource_eq_ok_iff.1 hfirst
  obtain rfl := Except.ok.inj (hfound.symm.trans hlexemes)
  obtain ⟨others, more, hothers, hmore, rfl⟩ := ofSource_eq_ok_iff.1 hsecond
  have horder := (Lexeme.inOrder_of_ofSource hlexemes).significant ""
  have horder' := (Lexeme.inOrder_of_ofSource hothers).significant ""
  obtain ⟨before, behind, hnewline, hjoined⟩ := Lexeme.exists_ofSource_append_separated hlexemes hothers
  generalize front.utf8ByteSize + 3 = k at hjoined ⊢
  generalize hseparator : Lexeme.semicolon before (front.utf8ByteSize + 1) = separator at hjoined
  have hcomment : separator.isComment = false := by rw [← hseparator]; rfl
  have htoken : separator.token? = none := by rw [← hseparator]; rfl
  obtain ⟨gap, hsignificant⟩ := Lexeme.exists_significant_append hcomment "" found
    (Lexeme.widenGap behind (others.map (Lexeme.shift k)))
  rw [Lexeme.significant_widenGap, Lexeme.significant_map_shift] at hsignificant
  have hline : (Lexeme.isOnNewLine { separator with gap := gap ++ separator.gap }) = true := by
    rw [← hseparator]
    simp [Lexeme.isOnNewLine, Lexeme.semicolon, hnewline]
  have hsymbol : Lexeme.isSymbol { separator with gap := gap ++ separator.gap } ";" = true := by
    rw [← hseparator]
    rfl
  refine ofSource_eq_ok_iff.2 ⟨_, forest ++ (Relocation.shift k).nodes more, hjoined, ?_, ?_⟩
  · rw [hsignificant]
    exact Grammar.file_append_separated horder horder' hforest hcontained ⟨hsymbol, hline⟩ hmore behind k _
  · rw [List.filterMap_append, List.filterMap_cons_none htoken, Lexeme.filterMap_token?_widenGap,
      Lexeme.filterMap_token?_map_shift]
    rfl

/-- Both texts can be read, and so they can with a separator between them, but with other constructs. -/
def RunTogether (front back : String) : Prop :=
  ∃ first second joined, ofSource front = .ok first ∧ ofSource back = .ok second ∧
    ofSource (front ++ "\n;\n" ++ back) = .ok joined ∧
    (Node.listingAll joined.forest).map Node.kind ≠
      (Node.listingAll (first.forest ++ second.forest)).map Node.kind

theorem runTogether_of {front back : String}
    (hread : ((ofSource front).toOption.any fun first => (ofSource back).toOption.any fun second =>
      (ofSource (front ++ "\n;\n" ++ back)).toOption.any fun joined =>
        (Node.listingAll joined.forest).map Node.kind !=
          (Node.listingAll (first.forest ++ second.forest)).map Node.kind) = true) :
    RunTogether front back := by
  obtain ⟨first, hfirst, hread⟩ := exists_of_toOption_any hread
  obtain ⟨second, hsecond, hread⟩ := exists_of_toOption_any hread
  obtain ⟨joined, hjoined, hkinds⟩ := exists_of_toOption_any hread
  exact ⟨first, second, joined, hfirst, hsecond, hjoined, bne_iff_ne.1 hkinds⟩

/-- The clause behind `where` goes on behind the separator when no brace ends it, so what stands there is
lost. -/
theorem runTogether_where : RunTogether "func f() where T: P" "g()" :=
  runTogether_of (by decide +kernel)

/-- The bracket that would end a capture list is looked for behind the separator. -/
theorem runTogether_bracket :
    RunTogether "f \x7b [ \x7b if let [ = x \x7b\x7d ; if let [ = x \x7b\x7d \x7d ] \x7d"
      "for \x7d in a \x7b\x7d" :=
  runTogether_of (by decide +kernel)

end Snapshot

end SourceLint
