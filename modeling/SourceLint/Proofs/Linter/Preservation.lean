import SourceLint.Proofs.Linter.Independence
import SourceLint.Proofs.Rules.Tidying

/-!
# What a pass leaves alone

A pass over a text only removes semicolons at the ends of lines and sets spacing around commas right. So
the corrected text is cut into lexemes again, and it has the comments, the string literals and the lines
of the text before.
-/

namespace SourceLint

/-- The comments and string literals among the lexemes of a source text, with the lines on which they
begin. -/
def Lexeme.enclosed (source : String) (lexemes : List Lexeme) : List (Nat × LexemeKind × String) :=
  (lexemes.filter fun x => x.kind.shields).map fun x =>
    ((LineIndex.ofString source).lineOf x.start, x.kind, x.text)

/-- The lines of lexemes can be read back from the text. -/
theorem Shading.enclosed_eq {source gap : String} {marks : List Mark} {placed : List PlacedLexeme}
    (h : Shading 0 gap 1 marks placed) (hsource : source.toList = Mark.chars marks) :
    Lexeme.enclosed source (placed.map Prod.snd) = enclosed placed := by
  rw [Lexeme.enclosed, enclosed, List.filter_map, List.map_map]
  apply List.map_congr_left
  intro x hx
  obtain ⟨front, c, body, back, hmarks, hstart, -, hline⟩ := h.exists_piece (List.mem_filter.1 hx).1
  have hsplit : source.toList = Mark.chars front ++
      Mark.chars (Mark.ofChars x.2.kind.shields x.1 (c :: body) ++ back) := by
    rw [hsource, hmarks, List.append_assoc, Mark.chars_append]
  rw [Nat.zero_add] at hstart
  rw [Function.comp_apply, hstart, LineIndex.lineOf_append hsplit, hline]

namespace Corrector

variable {config : Config} {linter : Linter} {corrector : Corrector} {source : String}
  {violations : List Violation}

/-- The corrected text is the tidied one. -/
theorem content_of_tidied {offSemicolon offComma : Nat → Bool} {marks marks' : List Mark}
    (hsource : source.toList = Mark.chars marks) (semicolon comma : String)
    (hproposals : violations.filterMap corrector.proposal? =
      (TrailingSemicolon.edits offSemicolon marks).map (fun e => ⟨semicolon, e⟩) ++
        (CommaSpacing.edits offComma 0 [] marks).map fun e => ⟨comma, e⟩)
    (h : Tidied offSemicolon offComma none marks marks') :
    (corrector.apply source violations).content.toList = Mark.chars marks' := by
  have hmap : (violations.filterMap corrector.proposal?).map Proposal.correction =
      TrailingSemicolon.edits offSemicolon marks ++ CommaSpacing.edits offComma 0 [] marks := by
    rw [hproposals, List.map_append, List.map_map, List.map_map]
    exact congrArg₂ _ (List.map_id _) (List.map_id _)
  have hindependent : Correction.Independent source.toList
      ((violations.filterMap corrector.proposal?).map Proposal.correction) := by
    rw [hmap, hsource]
    exact Mark.edits_independent offSemicolon offComma marks
  obtain ⟨corrections, htidied, hperm⟩ := h.spliced .nil 0
  rw [← hsource] at htidied
  refine (independent_proposals hindependent).spliced_unique ?_ (spliced_apply hindependent) htidied
  have hproposed := (corrector.proposals_perm violations).map Proposal.correction
  rw [hmap] at hproposed
  exact hproposed.trans hperm.symm

/-- A pass over a text tidies it by the edits of the two rules. -/
theorem exists_edits (hlinter : Linter.ofConfig config = .ok linter)
    (hlint : linter.lint source = .ok violations) (corrector : Corrector) :
    ∃ offSemicolon offComma marks marks' placed, Shading 0 "" 1 marks placed ∧
      source.toList = Mark.chars marks ∧ Tidied offSemicolon offComma none marks marks' ∧
      violations.filterMap corrector.proposal? =
        (TrailingSemicolon.edits offSemicolon marks).map (fun e => ⟨TrailingSemicolon.identifier, e⟩) ++
          (CommaSpacing.edits offComma 0 [] marks).map (fun e => ⟨CommaSpacing.identifier, e⟩) ∧
      (corrector.apply source violations).content.toList = Mark.chars marks' := by
  obtain ⟨marks, placed, hshading, hsource⟩ := Linter.exists_shading hlinter hlint
  obtain ⟨semicolons, commas, hproposals⟩ := Linter.exists_proposals hlinter corrector
  have hedits := hproposals source violations marks placed hlint hshading hsource
  obtain ⟨marks', htidied⟩ := Tidied.exists_tidied
    (Shading.isOff semicolons placed TrailingSemicolon.identifier)
    (Shading.isOff commas placed CommaSpacing.identifier) none marks
  exact ⟨_, _, marks, marks', placed, hshading, hsource, htidied, hedits,
    content_of_tidied hsource _ _ hedits htidied⟩

/-- A pass over a text tidies it. -/
theorem exists_tidied (hlinter : Linter.ofConfig config = .ok linter)
    (hlint : linter.lint source = .ok violations) (corrector : Corrector) :
    ∃ offSemicolon offComma marks marks' placed, Shading 0 "" 1 marks placed ∧
      source.toList = Mark.chars marks ∧ Tidied offSemicolon offComma none marks marks' ∧
      (corrector.apply source violations).content.toList = Mark.chars marks' := by
  obtain ⟨_, _, marks, marks', placed, hshading, hsource, htidied, -, hcontent⟩ :=
    exists_edits hlinter hlint corrector
  exact ⟨_, _, marks, marks', placed, hshading, hsource, htidied, hcontent⟩

/-- A pass over a text that can be read comes to its end. The corrected text is cut into lexemes without
fault, its comments and string literals are those of the text, one after the other and on the same lines,
and it has as many newlines. -/
theorem pass_keeps_enclosed {snapshot : Snapshot} (hlinter : Linter.ofConfig config = .ok linter)
    (hsnapshot : Snapshot.ofSource source = .ok snapshot) (corrector : Corrector) :
    ∃ violations outcome lexemes lexemes',
      corrector.pass linter source = .ok (violations, outcome) ∧
      Lexeme.ofSource source = .ok lexemes ∧ Lexeme.ofSource outcome.content = .ok lexemes' ∧
      Lexeme.enclosed outcome.content lexemes' = Lexeme.enclosed source lexemes ∧
      outcome.content.toList.count '\n' = source.toList.count '\n' := by
  obtain ⟨-, -, -, -, -, hprovider, -⟩ := Linter.exists_rules hlinter
  have hlint : linter.lint source = .ok (linter.lintSnapshot source snapshot) := by
    rw [Linter.lint, hprovider, hsnapshot]
    rfl
  have hpass : corrector.pass linter source = .ok (linter.lintSnapshot source snapshot,
      corrector.apply source (linter.lintSnapshot source snapshot)) := by
    rw [pass, hlint]
    rfl
  obtain ⟨_, _, marks, marks', placed, hshading, hsource, htidied, hcontent⟩ :=
    exists_tidied hlinter hlint corrector
  have hretouched := htidied.retouched hshading.isChain_borders
  obtain ⟨placed', hshading', henclosed⟩ := Shading.cutInto_of_retouched hshading hretouched
    (htidied.linesFrom hshading.linesFrom) 0 ""
  refine ⟨_, _, placed.map Prod.snd, placed'.map Prod.snd, hpass, ?_, ?_, ?_, ?_⟩
  · rw [Lexeme.ofSource, hsource, hshading.scan_eq]
  · rw [Lexeme.ofSource, hcontent, hshading'.scan_eq]
  · rw [hshading'.enclosed_eq hcontent, hshading.enclosed_eq hsource, henclosed]
  · rw [hcontent, hsource, hretouched.count_newline]

/-- Commas and semicolons in an interpolation, in a comment within a comment and in a raw literal stay,
while those around them are corrected. -/
theorem pass_keeps_enclosed_nested :
    ∃ source linter snapshot violations outcome lexemes lexemes',
      source = "f(\"a ,\\(g(\";\"))\" ,1);\n/* /* ; */ */ h(#\"b ,\"#,2);\n// c ,d;" ∧
      Linter.ofConfig {} = .ok linter ∧ Snapshot.ofSource source = .ok snapshot ∧
      Corrector.pass {} linter source = .ok (violations, outcome) ∧
      outcome.content = "f(\"a ,\\(g(\";\"))\", 1)\n/* /* ; */ */ h(#\"b ,\"#, 2)\n// c ,d;" ∧
      Lexeme.ofSource source = .ok lexemes ∧ Lexeme.ofSource outcome.content = .ok lexemes' ∧
      Lexeme.enclosed outcome.content lexemes' = Lexeme.enclosed source lexemes ∧
      outcome.content.toList.count '\n' = source.toList.count '\n' := by
  let source := "f(\"a ,\\(g(\";\"))\" ,1);\n/* /* ; */ */ h(#\"b ,\"#,2);\n// c ,d;"
  have hrun : ((Linter.ofConfig {}).toOption.any fun linter =>
      (Snapshot.ofSource source).toOption.any fun _ =>
        (Corrector.pass {} linter source).toOption.any fun result => result.2.content ==
          "f(\"a ,\\(g(\";\"))\", 1)\n/* /* ; */ */ h(#\"b ,\"#, 2)\n// c ,d;") = true := by
    decide +kernel
  obtain ⟨linter, hlinter, hrun⟩ := exists_of_toOption_any hrun
  obtain ⟨snapshot, hsnapshot, hrun⟩ := exists_of_toOption_any hrun
  obtain ⟨⟨violations, outcome⟩, hpass, hcontent⟩ := exists_of_toOption_any hrun
  obtain ⟨_, _, lexemes, lexemes', hsame, hlexemes, hlexemes', henclosed, hcount⟩ :=
    pass_keeps_enclosed hlinter hsnapshot {}
  obtain ⟨rfl, rfl⟩ := Prod.mk.inj (Except.ok.inj (hpass.symm.trans hsame))
  exact ⟨source, linter, snapshot, violations, outcome, lexemes, lexemes', rfl, hlinter, hsnapshot,
    hpass, eq_of_beq hcontent, hlexemes, hlexemes', henclosed, hcount⟩

end Corrector

end SourceLint
