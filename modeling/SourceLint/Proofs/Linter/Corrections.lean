import SourceLint.Correction.Passes
import SourceLint.Proofs.Rules.CommaSpacing
import SourceLint.Proofs.Rules.Reports
import SourceLint.Proofs.Rules.TrailingSemicolon

/-!
# The corrections of a linter

Whatever the configuration is, the corrections that come out of linting a source text are those of two
rules: the edits of semicolons at the ends of lines, and behind them the edits of commas. Which of them
there are depends on the marks of the text, on whether the rules run, and on which lines directives turn
them off.
-/

namespace SourceLint

/-! ### Rules without corrections -/

namespace Rule

/-- What the rule reports about constructs carries no corrections. -/
def NodesPlain (rule : Rule) : Prop :=
  ∀ kinds run, rule.check = .nodes kinds run →
    ∀ context node, ∀ v ∈ run context node, v.correction = none

theorem NodesPlain.correction_of_mem_visit {rule : Rule} (h : rule.NodesPlain) {context : Context}
    {node : Node} {v : Violation} (hv : v ∈ rule.visit context node) : v.correction = none := by
  have hreported := mem_nodeViolations_of_mem_visit hv
  rw [nodeViolations] at hreported
  cases hcheck : rule.check with
  | file run =>
      rw [hcheck] at hreported
      cases hreported
  | nodes kinds run =>
      rw [hcheck] at hreported
      exact h kinds run hcheck context node v hreported

/-- A rule about whole files says nothing about constructs. -/
theorem NodesPlain.ofFile {rule : Rule} {run : Context → List Violation}
    (hcheck : rule.check = .file run) : rule.NodesPlain := by
  intro kinds run' hcheck'
  rw [hcheck] at hcheck'
  cases hcheck'

end Rule

namespace Dispatch

/-- When no rule about constructs corrects anything, no violation of a node carries a correction. -/
theorem correction_of_mem_runNode {rules : List Rule} (hplain : ∀ rule ∈ rules, rule.NodesPlain)
    {context : Context} {node : Node} {v : Violation}
    (h : v ∈ (ofRules rules).runNode context node) : v.correction = none := by
  rw [runNode_ofRules, List.mem_flatMap] at h
  obtain ⟨rule, hrule, hv⟩ := h
  exact (hplain rule hrule).correction_of_mem_visit hv

end Dispatch

/-! ### The rules of a configuration -/

theorem KnownRule.exists_of_ofSeverity {config : Config} {make : SeverityOptions → Rule} {rule : Rule}
    (h : (ofSeverity make).build config = .ok rule) : ∃ options, make options = rule := by
  obtain ⟨options, -, hrule⟩ := exceptMap_eq_ok_iff.1 h
  exact ⟨options, hrule⟩

/-- A rule that never corrects anything. -/
structure Rule.Plain (rule : Rule) : Prop where
  nodes : rule.NodesPlain
  file : ∀ context, ∀ v ∈ rule.fileViolations context, v.correction = none

theorem Rule.Plain.ofNodes {rule : Rule} {kinds : List NodeKind}
    {run : Context → Node → List Violation} (hcheck : rule.check = .nodes kinds run)
    (h : ∀ context node, ∀ v ∈ run context node, v.correction = none) : rule.Plain where
  nodes := by
    intro kinds' run' hcheck'
    rw [hcheck] at hcheck'
    obtain ⟨-, rfl⟩ := Check.nodes.inj hcheck'
    exact h
  file := by simp [Rule.fileViolations, hcheck]

theorem Rule.Plain.ofFile {rule : Rule} {run : Context → List Violation}
    (hcheck : rule.check = .file run) (h : ∀ context, ∀ v ∈ run context, v.correction = none) :
    rule.Plain where
  nodes := .ofFile hcheck
  file := by simpa [Rule.fileViolations, hcheck] using h

/-- The rules of a linter with a configuration: some that never correct anything, the two rules that
do, and some others, of which those run that the configuration selects. -/
theorem Linter.exists_rules {config : Config} {linter : Linter}
    (h : Linter.ofConfig config = .ok linter) :
    ∃ before after semicolons commas selects,
      linter.provider = Snapshot.ofSource ∧
      linter.rules = (before ++ TrailingSemicolon.rule semicolons :: CommaSpacing.rule commas ::
        after).filter selects ∧
      (∀ rule ∈ before, rule.Plain) ∧ ∀ rule ∈ after, rule.Plain := by
  obtain ⟨rules, hrules, rfl⟩ := exceptMap_eq_ok_iff.1 h
  obtain ⟨all, hall, rfl⟩ := exceptMap_eq_ok_iff.1 hrules
  rw [Registry.instantiate, Registry.standard] at hall
  obtain ⟨r₁, rest₁, h₁, hrest₁, rfl⟩ := Registry.buildAll_cons hall
  obtain ⟨r₂, rest₂, h₂, hrest₂, rfl⟩ := Registry.buildAll_cons hrest₁
  obtain ⟨r₃, rest₃, h₃, hrest₃, rfl⟩ := Registry.buildAll_cons hrest₂
  obtain ⟨r₄, rest₄, h₄, hrest₄, rfl⟩ := Registry.buildAll_cons hrest₃
  obtain ⟨r₅, rest₅, h₅, hrest₅, rfl⟩ := Registry.buildAll_cons hrest₄
  obtain ⟨r₆, rest₆, h₆, hrest₆, rfl⟩ := Registry.buildAll_cons hrest₅
  obtain ⟨r₇, rest₇, h₇, hrest₇, rfl⟩ := Registry.buildAll_cons hrest₆
  obtain ⟨o₁, rfl⟩ := KnownRule.exists_of_ofSeverity h₁
  obtain ⟨o₂, rfl⟩ := KnownRule.exists_of_ofSeverity h₂
  obtain ⟨o₃, rfl⟩ := KnownRule.exists_of_ofSeverity h₃
  obtain ⟨o₄, rfl⟩ := KnownRule.exists_of_ofSeverity h₄
  obtain ⟨o₅, rfl⟩ := KnownRule.exists_of_ofSeverity h₅
  obtain ⟨o₆, rfl⟩ := KnownRule.exists_of_ofSeverity h₆
  obtain ⟨o₇, -, rfl⟩ := exceptMap_eq_ok_iff.1 h₇
  obtain rfl := Except.ok.inj hrest₇
  refine ⟨[UnusedEnumerated.rule o₁, UnownedVariableCapture.rule o₂, LiteralBrackets.rule o₃],
    [OpenRemark.rule o₆, LineLength.rule o₇], o₄, o₅, _, rfl, rfl, ?_, ?_⟩
  · simp only [List.forall_mem_cons]
    exact ⟨.ofNodes rfl fun context node v h => (UnusedEnumerated.isRemark_of_mem h).correction_eq,
      .ofNodes rfl fun context node v h => (UnownedVariableCapture.isRemark_of_mem h).correction_eq,
      .ofNodes rfl fun context node v h => (LiteralBrackets.isRemark_of_mem h).correction_eq, by simp⟩
  · simp only [List.forall_mem_cons]
    exact ⟨.ofFile rfl fun context v h => (OpenRemark.isRemark_of_mem h).correction_eq,
      .ofFile rfl fun context v h => (LineLength.isRemark_of_mem h).correction_eq, by simp⟩

/-! ### Directives -/

/-- The directives of a text with marks, collected. -/
def Shading.suppression (placed : List PlacedLexeme) : Suppression :=
  (remarks placed).foldl (fun s (line, directive) => s.add line directive) {}

theorem Shading.suppression_eq {source : String} {gap : String} {marks : List Mark}
    {placed : List PlacedLexeme} (h : Shading 0 gap 1 marks placed)
    (hsource : source.toList = Mark.chars marks) :
    Suppression.ofTokens source (TokenStream.ofList (tokens placed)) (.ofString source) =
      suppression placed := by
  rw [Suppression.ofTokens, h.directives_eq hsource, suppression]

/-- A rule is off on a line for good, or because of the directives of the text. -/
def Shading.isOff (on : Bool) (placed : List PlacedLexeme) (rule : String) (line : Nat) : Bool :=
  !on || (suppression placed).isDisabled rule line

theorem Shading.isOff_false (placed : List PlacedLexeme) (rule : String) :
    isOff false placed rule = fun _ => true := rfl

/-! ### Linting -/

theorem Snapshot.tokens_of_assemble {forest : List Node} {tokens : TokenStream} {sourceLength : Nat}
    {snapshot : Snapshot} (h : assemble forest tokens sourceLength = .ok snapshot) :
    snapshot.tokens = tokens := by
  rw [assemble] at h
  split at h
  · rw [← Except.ok.inj h]
  · cases h
  · cases h

/-- The snapshot of a text with marks has the tokens of its lexemes. -/
theorem Shading.tokens_of_ofSource {source : String} {snapshot : Snapshot} {marks : List Mark}
    {placed : List PlacedLexeme} (h : Shading 0 "" 1 marks placed)
    (hsource : source.toList = Mark.chars marks) (hsnapshot : Snapshot.ofSource source = .ok snapshot) :
    snapshot.tokens = TokenStream.ofList (tokens placed) := by
  have hlexemes : Lexeme.ofSource source = .ok (placed.map Prod.snd) := by
    rw [Lexeme.ofSource, hsource, h.scan_eq]
  rw [Snapshot.ofSource, hlexemes] at hsnapshot
  simp only [bind, Except.bind] at hsnapshot
  split at hsnapshot
  · rw [Snapshot.tokens_of_assemble hsnapshot, List.filterMap_map]
    rfl
  · cases hsnapshot
  · cases hsnapshot

/-! ### Proposals -/

/-- What the rule reports on a whole file, on lines where it is not off, as far as it comes to
corrections that may be applied. -/
def Rule.fileProposals (rule : Rule) (corrector : Corrector) (off : String → Nat → Bool)
    (context : Context) : List Proposal :=
  ((rule.fileViolations context).filter fun v =>
    !off v.rule (context.lines.lineOf v.offset)).filterMap corrector.proposal?

/-- When no line is off, a rule about whole files proposes the corrections of all that it reports. -/
theorem Rule.filterMap_proposal?_validate {rule : Rule} {run : Context → List Violation}
    (hcheck : rule.check = .file run) (corrector : Corrector) (context : Context) :
    (rule.validate context).filterMap corrector.proposal? =
      rule.fileProposals corrector (fun _ _ => false) context := by
  have hreported : rule.validate context = rule.fileViolations context := by
    simp only [Rule.validate, Rule.fileViolations, hcheck]
  simp [Rule.fileProposals, hreported]

theorem Corrector.filterMap_proposal?_plain (corrector : Corrector) {violations : List Violation}
    (h : ∀ v ∈ violations, v.correction = none) : violations.filterMap corrector.proposal? = [] := by
  rw [List.filterMap_eq_nil_iff]
  intro v hv
  rw [proposal?, h v hv, Option.map_none, ite_self]

theorem Rule.Plain.fileProposals_eq_nil {rule : Rule} (h : rule.Plain) (corrector : Corrector)
    (off : String → Nat → Bool) (context : Context) :
    rule.fileProposals corrector off context = [] := by
  apply corrector.filterMap_proposal?_plain
  intro v hv
  exact h.file context v (List.mem_filter.1 hv).1

/-- Rules that never correct anything propose nothing, whichever of them run. -/
theorem Rule.Plain.flatMap_fileProposals {rules : List Rule} (h : ∀ rule ∈ rules, rule.Plain)
    (selects : Rule → Bool) (corrector : Corrector) (off : String → Nat → Bool) (context : Context) :
    ((rules.filter selects).flatMap fun rule => rule.fileProposals corrector off context) = [] := by
  rw [List.flatMap_eq_nil_iff]
  intro rule hrule
  exact (h rule (List.mem_filter.1 hrule).1).fileProposals_eq_nil corrector off context

/-- Of some rules the first one proposes its own corrections, if it runs. -/
theorem Rule.flatMap_fileProposals_cons (rule : Rule) (rules : List Rule) (selects : Rule → Bool)
    (corrector : Corrector) (off : String → Nat → Bool) (context : Context) :
    (((rule :: rules).filter selects).flatMap fun rule => rule.fileProposals corrector off context) =
      (if selects rule then rule.fileProposals corrector off context else []) ++
        (rules.filter selects).flatMap fun rule => rule.fileProposals corrector off context := by
  rw [List.filter_cons]
  split
  · rfl
  · rfl

/-- What a rule reports on some places of a file, with an edit for each, comes to the edits on the lines
where the rule is not off, if it may be corrected. -/
theorem Corrector.filterMap_proposal? {β : Type} (corrector : Corrector) {identifier : String}
    (report : β → Violation) (edit : β → Correction) (hrule : ∀ b, (report b).rule = identifier)
    (hoffset : ∀ b, (report b).offset = (edit b).span.location)
    (hedit : ∀ b, (report b).correction = some (edit b)) (off : String → Nat → Bool) (places : List β) :
    ((places.map report).filter fun v => !off v.rule v.offset).filterMap corrector.proposal? =
      if corrector.isFixable identifier then
        ((places.map edit).filter fun e => !off identifier e.span.location).map
          fun e => ⟨identifier, e⟩
      else [] := by
  have hproposal : ∀ b, corrector.proposal? (report b) =
      if corrector.isFixable identifier then some ⟨identifier, edit b⟩ else none := by
    intro b
    rw [proposal?, hrule, hedit]
    rfl
  induction places with
  | nil => simp
  | cons b places ih =>
      simp only [List.map_cons, List.filter_cons, hrule, hoffset]
      cases off identifier (edit b).span.location with
      | true => simpa using ih
      | false =>
          simp only [Bool.not_false, if_true, List.filterMap_cons, hproposal, ih]
          cases corrector.isFixable identifier <;> simp

section Rules

variable {context : Context} {marks : List Mark} {placed : List PlacedLexeme}
  (h : Shading 0 "" 1 marks placed) (hsource : context.source.toList = Mark.chars marks)
  (htokens : context.snapshot.tokens = TokenStream.ofList (Shading.tokens placed))
  (hlines : context.lines = .ofString context.source) (corrector : Corrector)
  (off : String → Nat → Bool)

include h hsource htokens hlines

/-- The rule on semicolons proposes its edits, if these may be applied. -/
theorem TrailingSemicolon.fileProposals_rule (options : SeverityOptions) :
    (rule options).fileProposals corrector off context =
      if corrector.isFixable identifier then
        (edits (off identifier) marks).map fun e => ⟨identifier, e⟩
      else [] := by
  have hproposals := corrector.filterMap_proposal? (violation options.severity) Correction.deletion
    (fun _ => rfl) (fun _ => rfl) (fun _ => rfl)
    (fun rule offset => off rule (context.lines.lineOf offset))
    (context.filterMatches (runs context.source.toList) (.excluding [.comment, .string]))
  have hedits := edits_eq h hsource (off identifier)
  rw [← htokens, ← hlines] at hedits
  rw [← hedits]
  exact hproposals

/-- The rule on commas proposes its edits, if these may be applied. -/
theorem CommaSpacing.fileProposals_rule (options : SeverityOptions) :
    (rule options).fileProposals corrector off context =
      if corrector.isFixable identifier then
        (edits (off identifier) 0 [] marks).map fun e => ⟨identifier, e⟩
      else [] := by
  have hproposals := corrector.filterMap_proposal? (violation options.severity) id
    (fun _ => rfl) (fun _ => rfl) (fun _ => rfl)
    (fun rule offset => off rule (context.lines.lineOf offset))
    (((sites context.source.toList).filter fun site =>
      context.accepts (.excluding [.comment, .string]) ⟨site.offset, 1⟩).filterMap Site.correction?)
  have hedits := @edits_eq _ [] marks placed h hsource (off identifier)
  rw [← htokens, ← hlines] at hedits
  simp only [Mark.chars_nil, byteLength_nil, List.reverse_nil, ← hsource] at hedits
  rw [← hedits]
  rw [List.map_id] at hproposals
  exact hproposals

end Rules

/-- When the rules about constructs correct nothing, the corrections of a text are those of the rules
about whole files. -/
theorem Linter.filterMap_proposal?_lintSnapshot {linter : Linter}
    (hplain : ∀ rule ∈ linter.rules, rule.NodesPlain) (corrector : Corrector) (source : String)
    (snapshot : Snapshot) :
    (linter.lintSnapshot source snapshot).filterMap corrector.proposal? =
      linter.rules.flatMap fun rule => rule.fileProposals corrector
        (Suppression.ofTokens source snapshot.tokens (.ofString source)).isDisabled
        (linter.context source snapshot) := by
  have hnodes : ∀ p : Violation → Bool, (((Node.preOrder snapshot.forest).flatMap
      ((Dispatch.ofRules linter.rules).runNode (linter.context source snapshot))).filter
        p).filterMap corrector.proposal? = [] := by
    intro p
    apply corrector.filterMap_proposal?_plain
    intro v hv
    obtain ⟨node, -, hv⟩ := List.mem_flatMap.1 (List.mem_filter.1 hv).1
    exact Dispatch.correction_of_mem_runNode hplain hv
  rw [lintSnapshot, withoutSuppressed_eq, List.filter_append, List.filterMap_append, hnodes,
    List.append_nil, Dispatch.runFile_ofRules, List.filter_flatMap, List.filterMap_flatMap]
  rfl

/-- A list of proposals or none of them, depending on whether a rule runs and may be corrected. -/
theorem Shading.ite_isOff {placed : List PlacedLexeme} (edits : (Nat → Bool) → List Correction)
    (hoff : edits (fun _ => true) = []) (selected fixable : Bool) (identifier : String) :
    (if selected then
      if fixable then
        (edits ((suppression placed).isDisabled identifier)).map fun e => (⟨identifier, e⟩ : Proposal)
      else []
    else []) =
      (edits (isOff (selected && fixable) placed identifier)).map fun e => ⟨identifier, e⟩ := by
  cases selected with
  | true =>
      cases fixable with
      | true => rfl
      | false => simp [isOff_false, hoff]
  | false => simp [isOff_false, hoff]

open Shading in
/-- The corrections that may be applied to a source text are the edits of semicolons and the edits of
commas. Whether each of the two rules runs and may be corrected does not depend on the text. -/
theorem Linter.exists_proposals {config : Config} {linter : Linter}
    (hlinter : Linter.ofConfig config = .ok linter) (corrector : Corrector) :
    ∃ semicolons commas : Bool, ∀ source violations marks placed,
      linter.lint source = .ok violations → Shading 0 "" 1 marks placed →
      source.toList = Mark.chars marks →
      violations.filterMap corrector.proposal? =
        (TrailingSemicolon.edits (isOff semicolons placed TrailingSemicolon.identifier) marks).map
          (fun e => ⟨TrailingSemicolon.identifier, e⟩) ++
        (CommaSpacing.edits (isOff commas placed CommaSpacing.identifier) 0 [] marks).map
          fun e => ⟨CommaSpacing.identifier, e⟩ := by
  obtain ⟨before, after, semicolons, commas, selects, hprovider, hrules, hbefore, hafter⟩ :=
    Linter.exists_rules hlinter
  refine ⟨selects (TrailingSemicolon.rule semicolons) &&
      corrector.isFixable TrailingSemicolon.identifier,
    selects (CommaSpacing.rule commas) && corrector.isFixable CommaSpacing.identifier, ?_⟩
  intro source violations marks placed hlint hshading hsource
  obtain ⟨snapshot, hsnapshot, rfl⟩ := exceptMap_eq_ok_iff.1 hlint
  rw [hprovider] at hsnapshot
  have htokens := hshading.tokens_of_ofSource hsource hsnapshot
  have hplain : ∀ rule ∈ linter.rules, rule.NodesPlain := by
    intro rule hrule
    rw [hrules, List.mem_filter, List.mem_append, List.mem_cons, List.mem_cons] at hrule
    rcases hrule.1 with hrule | rfl | rfl | hrule
    · exact (hbefore rule hrule).nodes
    · exact .ofFile rfl
    · exact .ofFile rfl
    · exact (hafter rule hrule).nodes
  let off := (suppression placed).isDisabled
  let context := linter.context source snapshot
  calc
    (linter.lintSnapshot source snapshot).filterMap corrector.proposal?
        = linter.rules.flatMap fun rule => rule.fileProposals corrector off context := by
          rw [filterMap_proposal?_lintSnapshot hplain, htokens, hshading.suppression_eq hsource]
    _ = (if selects (TrailingSemicolon.rule semicolons) then
            (TrailingSemicolon.rule semicolons).fileProposals corrector off context else []) ++
          if selects (CommaSpacing.rule commas) then
            (CommaSpacing.rule commas).fileProposals corrector off context else [] := by
          rw [hrules, List.filter_append, List.flatMap_append, Rule.Plain.flatMap_fileProposals hbefore,
            List.nil_append, Rule.flatMap_fileProposals_cons, Rule.flatMap_fileProposals_cons,
            Rule.Plain.flatMap_fileProposals hafter, List.append_nil]
    _ = _ := by
          rw [@TrailingSemicolon.fileProposals_rule context _ _ hshading hsource htokens rfl,
            @CommaSpacing.fileProposals_rule context _ _ hshading hsource htokens rfl]
          exact congrArg₂ (· ++ ·)
            (ite_isOff (TrailingSemicolon.edits · marks) (TrailingSemicolon.edits_off marks) _ _ _)
            (ite_isOff (CommaSpacing.edits · 0 [] marks) (CommaSpacing.edits_off 0 [] marks) _ _ _)

end SourceLint
