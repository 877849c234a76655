import SourceLint.Proofs.Grammar.Abreast.Statements
import SourceLint.Proofs.Grammar.Abreast.Thinning
import SourceLint.Proofs.Grammar.Structure
import SourceLint.Proofs.Linter.Preservation
import SourceLint.Proofs.Syntax.Nesting

/-!
# What a pass leaves of the structure

A pass takes semicolons at the ends of lines away. Where each of them stands between two statements,
the corrected text can be read as well, and its structure has the same kinds of nodes in the same
nesting and the same order.
-/

namespace SourceLint

namespace Corrector

variable {config : Config} {linter : Linter} {source : String} {snapshot : Snapshot}
  {violations : List Violation} {lexemes : List Lexeme}

/-- The edits that a pass makes to semicolons. -/
def semicolonEdits (corrector : Corrector) (violations : List Violation) : List Correction :=
  ((violations.filterMap corrector.proposal?).filter fun p =>
    p.rule == TrailingSemicolon.identifier).map Proposal.correction

/-- The lexeme is a semicolon that a pass takes away. -/
def removes (corrector : Corrector) (violations : List Violation) (lexeme : Lexeme) : Bool :=
  lexeme.isSymbol ";" && (corrector.semicolonEdits violations).any fun e => e.span.covers lexeme.span

theorem semicolonEdits_eq {corrector : Corrector} {semicolons commas : List Correction}
    (h : violations.filterMap corrector.proposal? =
      semicolons.map (fun e => ⟨TrailingSemicolon.identifier, e⟩) ++
        commas.map fun e => ⟨CommaSpacing.identifier, e⟩) :
    corrector.semicolonEdits violations = semicolons := by
  have hother : (CommaSpacing.identifier == TrailingSemicolon.identifier) = false := by decide
  have hsemicolons : (semicolons.filter fun _ => true).map id = semicolons := by
    rw [List.filter_true, List.map_id]
  have hcommas : (commas.filter fun _ => false).map id = [] := by
    rw [List.filter_false, List.map_nil]
  rw [semicolonEdits, h, List.filter_append, List.filter_map, List.filter_map, List.map_append,
    List.map_map, List.map_map]
  simp only [Function.comp_def, BEq.rfl, hother]
  exact (congrArg₂ _ hsemicolons hcommas).trans (List.append_nil _)

theorem removes_eq (corrector : Corrector) (violations : List Violation) :
    corrector.removes violations =
      Shading.isPicked (TrailingSemicolon.covered (corrector.semicolonEdits violations)) := by
  funext lexeme
  rw [removes, Shading.isPicked, TrailingSemicolon.covered]
  cases hlexeme : lexeme.isSymbol ";" with
  | false => rfl
  | true =>
      rw [Lexeme.span, (Lexeme.isSymbol_iff.1 hlexeme).2]
      rfl

/-- The corrected text is cut into the lexemes of the text without the semicolons that are taken
away. -/
theorem thinned_of_lint (hlinter : Linter.ofConfig config = .ok linter)
    (hlint : linter.lint source = .ok violations) (corrector : Corrector)
    (hlexemes : Lexeme.ofSource source = .ok lexemes) :
    ∃ lexemes', Lexeme.ofSource (corrector.apply source violations).content = .ok lexemes' ∧
      Grammar.Thinned (corrector.removes violations) [] (Lexeme.significant "" lexemes)
        (Lexeme.significant "" lexemes') := by
  obtain ⟨offSemicolon, offComma, marks, marks', placed, hshading, hsource, htidied, hproposals,
    hcontent⟩ := exists_edits hlinter hlint corrector
  have hretouched := htidied.retouched hshading.isChain_borders
  obtain ⟨placed', hshading', -⟩ := Shading.cutInto_of_retouched hshading hretouched
    (htidied.linesFrom hshading.linesFrom) 0 ""
  have hthinned := Shading.thinsInto hshading (TrailingSemicolon.picks_goesIn _ marks) hretouched
    hshading' (fun h => by cases h) (Shading.GapsMeet.refl _ [] ("" ++ "").toList marks)
  have hplaced : placed.map Prod.snd = lexemes := by
    rw [Lexeme.ofSource, hsource, hshading.scan_eq] at hlexemes
    exact Except.ok.inj hlexemes
  rw [← semicolonEdits_eq hproposals, ← removes_eq, hplaced] at hthinned
  exact ⟨placed'.map Prod.snd, by rw [Lexeme.ofSource, hcontent, hshading'.scan_eq], hthinned⟩

/-- Where it does not matter to the grammar that a pass takes semicolons away and changes the spacing
around commas, the pass comes to its end and the corrected text can be read. Its structure has the same
kinds of nodes in the same nesting and the same order. -/
theorem pass_keeps_outline (hlinter : Linter.ofConfig config = .ok linter)
    (hsnapshot : Snapshot.ofSource source = .ok snapshot) (corrector : Corrector)
    (hlexemes : Lexeme.ofSource source = .ok lexemes)
    (hharmless : Grammar.Harmless (corrector.removes (linter.lintSnapshot source snapshot))
      source.utf8ByteSize (Lexeme.significant "" lexemes)) :
    ∃ violations outcome snapshot', corrector.pass linter source = .ok (violations, outcome) ∧
      Snapshot.ofSource outcome.content = .ok snapshot' ∧
      Node.SameOutline snapshot.forest snapshot'.forest := by
  obtain ⟨-, -, -, -, -, hprovider, -⟩ := Linter.exists_rules hlinter
  have hlint : linter.lint source = .ok (linter.lintSnapshot source snapshot) := by
    rw [Linter.lint, hprovider, hsnapshot]
    rfl
  have hpass : corrector.pass linter source = .ok (linter.lintSnapshot source snapshot,
      corrector.apply source (linter.lintSnapshot source snapshot)) := by
    rw [pass, hlint]
    rfl
  obtain ⟨found, forest, hfound, hforest, hparts⟩ := Snapshot.ofSource_eq_ok_iff.1 hsnapshot
  obtain rfl := Except.ok.inj (hfound.symm.trans hlexemes)
  obtain ⟨lexemes', hlexemes', hthinned⟩ := thinned_of_lint hlinter hlint corrector hlexemes
  obtain ⟨forest', hforest', hsame⟩ := Grammar.follows_file hthinned hharmless
    ((Lexeme.inOrder_of_ofSource hlexemes).significant "")
    ((Lexeme.inOrder_of_ofSource hlexemes').significant "") forest hforest
  refine ⟨_, _, _, hpass, Snapshot.ofSource_eq_ok_iff.2 ⟨_, forest', hlexemes', hforest', rfl⟩, ?_⟩
  rw [hparts]
  exact hsame

/-- A list literal and an operator with its operand may begin the line behind a semicolon that goes. -/
theorem pass_keeps_outline_lines :
    ∃ source linter snapshot lexemes violations outcome snapshot',
      source = "func f(a: Int ,b: Int) \x7b\n  g(a,b);\n  [a ,b].map \x7b $0 \x7d;;\n  -a;\n\x7d\nlet c = f(1 ,2);" ∧
      Linter.ofConfig {} = .ok linter ∧ Snapshot.ofSource source = .ok snapshot ∧
      Lexeme.ofSource source = .ok lexemes ∧
      Grammar.Harmless (removes {} (linter.lintSnapshot source snapshot)) source.utf8ByteSize
        (Lexeme.significant "" lexemes) ∧
      Corrector.pass {} linter source = .ok (violations, outcome) ∧
      outcome.content =
        "func f(a: Int, b: Int) \x7b\n  g(a, b)\n  [a, b].map \x7b $0 \x7d\n  -a\n\x7d\nlet c = f(1, 2)" ∧
      Snapshot.ofSource outcome.content = .ok snapshot' ∧
      Node.SameOutline snapshot.forest snapshot'.forest := by
  let source := "func f(a: Int ,b: Int) \x7b\n  g(a,b);\n  [a ,b].map \x7b $0 \x7d;;\n  -a;\n\x7d\nlet c = f(1 ,2);"
  have hrun : ((Linter.ofConfig {}).toOption.any fun linter =>
      (Snapshot.ofSource source).toOption.any fun snapshot =>
        (Lexeme.ofSource source).toOption.any fun lexemes =>
          decide (Grammar.Harmless (removes {} (linter.lintSnapshot source snapshot))
            source.utf8ByteSize (Lexeme.significant "" lexemes)) &&
          (Corrector.pass {} linter source).toOption.any fun result => result.2.content ==
            "func f(a: Int, b: Int) \x7b\n  g(a, b)\n  [a, b].map \x7b $0 \x7d\n  -a\n\x7d\nlet c = f(1, 2)") =
      true := by
    decide +kernel
  obtain ⟨linter, hlinter, hrun⟩ := exists_of_toOption_any hrun
  obtain ⟨snapshot, hsnapshot, hrun⟩ := exists_of_toOption_any hrun
  obtain ⟨lexemes, hlexemes, hrun⟩ := exists_of_toOption_any hrun
  rw [Bool.and_eq_true, decide_eq_true_iff] at hrun
  obtain ⟨⟨violations, outcome⟩, hpass, hcontent⟩ := exists_of_toOption_any hrun.2
  obtain ⟨_, _, snapshot', hsame, hsnapshot', houtline⟩ :=
    pass_keeps_outline hlinter hsnapshot {} hlexemes hrun.1
  obtain ⟨rfl, rfl⟩ := Prod.mk.inj (Except.ok.inj (hpass.symm.trans hsame))
  exact ⟨source, linter, snapshot, lexemes, violations, outcome, snapshot', rfl, hlinter, hsnapshot,
    hlexemes, hrun.1, hpass, eq_of_beq hcontent, hsnapshot', houtline⟩

/-- A semicolon that keeps a comma from carrying on a list of bindings goes all the same, and then the
text cannot be read any more. -/
theorem pass_joins_bindings :
    ∃ source linter snapshot violations outcome, source = "let a = 1;\n, 2" ∧
      Linter.ofConfig {} = .ok linter ∧ Snapshot.ofSource source = .ok snapshot ∧
      Corrector.pass {} linter source = .ok (violations, outcome) ∧
      Snapshot.ofSource outcome.content = .error (.expected .variableName 12) := by
  have hrun : ((Linter.ofConfig {}).toOption.any fun linter =>
      (Snapshot.ofSource "let a = 1;\n, 2").toOption.any fun _ =>
        (Corrector.pass {} linter "let a = 1;\n, 2").toOption.any fun result =>
          result.2.content == "let a = 1\n, 2") = true := by
    decide +kernel
  obtain ⟨linter, hlinter, hrun⟩ := exists_of_toOption_any hrun
  obtain ⟨snapshot, hsnapshot, hrun⟩ := exists_of_toOption_any hrun
  obtain ⟨⟨violations, outcome⟩, hpass, hcontent⟩ := exists_of_toOption_any hrun
  refine ⟨_, linter, snapshot, violations, outcome, rfl, hlinter, hsnapshot, hpass, ?_⟩
  rw [eq_of_beq hcontent]
  decide +kernel

end Corrector

end SourceLint
