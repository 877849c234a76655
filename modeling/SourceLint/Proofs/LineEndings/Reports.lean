import SourceLint.Proofs.Directives.Spelling
import SourceLint.Proofs.LineEndings.NodeRules
import SourceLint.Proofs.Linter.Dispatching
import SourceLint.Proofs.Linter.FileReports
import SourceLint.Proofs.Rules.Reports
import SourceLint.Proofs.Sorting

/-!
# Reports on texts with carriage returns

The directives of a text are read with carriage returns as they are without them, and so are its lines and columns. So
the report on a text says the same with a carriage return before each newline, but for two defects: the rule on the
brackets of literals takes the carriage return behind an opening bracket for something on its line, and a newline that
is escaped in a string literal on one line makes the text unreadable.

## Main results

* `Linter.lintFile_returned`: the two reports on a text;
* `Linter.sayings?_lintFile_returned`: they say the same where the two defects do not matter.
-/

namespace SourceLint

/-! ### Directives -/

/-- A pattern without newlines and carriage returns is not in a text with carriage returns that does not have it. -/
theorem infix_of_infix_withReturns {pattern : List Char} (hnewline : '\n' ∉ pattern) (hreturn : '\r' ∉ pattern)
    {cs : List Char} (h : pattern <:+: withReturns cs) : pattern <:+: cs := by
  induction cs with
  | nil => exact h
  | cons c cs ih =>
      by_cases hc : c = '\n'
      · subst hc
        have hcut : ∀ {x : Char} {behind : List Char}, x ∉ pattern → pattern <:+: x :: behind →
            pattern = [] ∨ pattern <:+: behind := by
          intro x behind hx hinfix
          exact ((infix_append_cons_iff hx).1 (List.nil_append _ ▸ hinfix)).imp_left List.infix_nil.1
        rcases hcut hreturn h with rfl | h
        · exact List.nil_infix
        rcases hcut hnewline h with rfl | h
        · exact List.nil_infix
        · exact (ih h).trans (List.suffix_cons _ _).isInfix
      · have hstarts := startsWith_withReturns hnewline hreturn (c :: cs)
        rw [withReturns_cons hc] at h hstarts
        rcases List.infix_cons_iff.1 h with h | h
        · rw [Lexeme.startsWith, Lexeme.startsWith, List.isPrefixOf_iff_prefix.2 h] at hstarts
          exact (List.isPrefixOf_iff_prefix.1 hstarts.symm).isInfix
        · exact (ih h).trans (List.suffix_cons _ _).isInfix

namespace Directive

variable {tail : List Char}

/-- A remark ends at a carriage return at the end of its comment. -/
theorem restOfRemark_returned (htail : tail = [] ∨ tail = ['\r']) (cs : List Char) :
    restOfRemark (withReturns cs ++ tail) = restOfRemark cs := by
  have hline : ∀ ds : List Char, restOfLine (ds ++ ['\r']) = restOfLine ds := by
    intro ds
    obtain ⟨line, rest, rfl, hplain, hends⟩ := exists_span (fun c => c != '\n' && c != '\r') ds
    rw [restOfLine, restOfLine, List.append_assoc, takeWhile_span hplain hends, takeWhile_span hplain]
    cases rest with
    | nil => simp
    | cons c rest => exact hends
  rw [← OpenRemark.restOfRemark_withReturns cs]
  rcases htail with rfl | rfl
  · rw [List.append_nil]
  · rw [restOfRemark, restOfRemark, hline]

theorem marker_plain : '\n' ∉ marker ∧ '\r' ∉ marker := by decide

theorem not_infix_returned (htail : tail = [] ∨ tail = ['\r']) {cs : List Char} (hnone : ¬marker <:+: cs) :
    ¬marker <:+: withReturns cs ++ tail := by
  intro h
  refine hnone (infix_of_infix_withReturns marker_plain.1 marker_plain.2 ?_)
  rcases htail with rfl | rfl
  · rwa [List.append_nil] at h
  · refine ((infix_append_cons_iff marker_plain.2).1 h).resolve_right fun hnil => ?_
    exact absurd (List.infix_nil.1 hnil) (by decide)

/-- The directives of a comment with carriage returns, which may have one more at its end. -/
theorem directivesBehind_returned (htail : tail = [] ∨ tail = ['\r']) (before cs : List Char) :
    directivesBehind (withReturns before) (withReturns cs ++ tail) =
      (directivesBehind before cs).map fun found => (returnedOffset (before ++ cs) found.1, found.2) := by
  -- from one marker to the next
  induction hlength : cs.length using Nat.strongRecOn generalizing before cs with
  | ind length ih =>
      obtain ⟨rest, hparts, hrest, hnone⟩ := exists_of_beforeFirst (show marker ≠ [] by decide) cs
      generalize beforeFirst marker cs = first at hparts hnone
      subst hparts
      rcases hrest with rfl | ⟨more, rfl⟩
      · have hends : ∀ c ∈ ([] : List Char).head?, c = 's' := by simp
        have hfound := directivesBehind_append before hnone hends
        have hfound' := directivesBehind_append (withReturns before) (not_infix_returned htail hnone) hends
        rw [List.append_nil] at hfound hfound' ⊢
        rw [hfound, hfound', directivesBehind_nil, directivesBehind_nil, List.map_nil]
      · have hhead : ∀ behind : List Char, ∀ c ∈ (marker ++ behind).head?, c = 's' := by
          intro behind c hc
          exact (Option.some.inj hc).symm
        have hfirst := not_infix_returned (.inl rfl) hnone
        rw [List.append_nil] at hfirst
        have hreturned : withReturns (first ++ (marker ++ more)) ++ tail =
            withReturns first ++ (marker ++ (withReturns more ++ tail)) := by
          rw [withReturns_append, withReturns_append, withReturns_eq_self marker_plain.1]
          simp
        have hwhole : before ++ first ++ marker ++ more = before ++ (first ++ (marker ++ more)) := by simp
        have hlater := ih more.length (by simp [← hlength, marker]; omega) (before ++ first ++ marker) more rfl
        rw [withReturns_append, withReturns_append, withReturns_eq_self marker_plain.1, hwhole] at hlater
        have hplace : returnedOffset (before ++ (first ++ (marker ++ more))) (byteLength (before ++ first)) =
            byteLength (withReturns (before ++ first)) := by
          rw [← List.append_assoc, returnedOffset_byteLength]
        have htext : ofText? (withReturns more ++ tail) = ofText? more := by
          rw [ofText?, ofText?, restOfRemark_returned htail]
        rw [hreturned, directivesBehind_append _ hfirst (hhead _), directivesBehind_append _ hnone (hhead _),
          directivesBehind_marker, directivesBehind_marker, hlater, htext, List.map_append]
        congr 1
        rw [← withReturns_append, ← hplace]
        cases ofText? more with
        | none => rfl
        | some directive => rfl

theorem le_of_mem_directivesBehind {comment : List Char} {found : Nat × Directive}
    (h : found ∈ directivesBehind [] comment) : found.1 ≤ byteLength comment := by
  obtain ⟨offset, -, hat⟩ := List.mem_filterMap.1 h
  rw [List.nil_append, at?, Option.map_eq_some_iff] at hat
  obtain ⟨directive, hread, rfl⟩ := hat
  obtain ⟨rest, hrest, -⟩ := Option.bind_eq_some_iff.1 hread
  obtain ⟨front, rfl, hfront⟩ := eq_append_of_dropBytes? hrest
  rw [byteLength_append, hfront, Nat.add_assoc]
  exact Nat.le_add_right _ _

end Directive

/-! ### The directives of a text -/

section Suppression

variable {context context' : Context} {t t' : Token}

/-- A comment in both texts: with carriage returns it may have one more at its end. -/
theorem Context.Returned.exists_comment (h : Context.Returned context context')
    (ht : t ∈ context.snapshot.tokens.toList) (htoken : Token.Returned context.source.toList t t') :
    ∃ front comment back tail, context.source.toList = front ++ comment ++ back ∧
      (tail = [] ∨ tail = ['\r']) ∧ t.span.location = byteLength front ∧
        t.text? context.source = some (String.ofList comment) ∧
          t'.text? context'.source = some (String.ofList (withReturns comment ++ tail)) := by
  obtain ⟨lexemes, -, hlexemes, -⟩ := Snapshot.ofSource_eq_ok_iff.1 h.found
  have hslice : ∃ text, t.text? context.source = some text := by
    rw [Snapshot.toList_tokens h.found hlexemes] at ht
    obtain ⟨x, hx, hxt⟩ := List.mem_filterMap.1 ht
    have htext := (Lexeme.Tiles.of_ofSource hlexemes).texts x hx
    rw [(Lexeme.token?_eq_some_iff.1 hxt).2] at htext
    exact ⟨_, htext⟩
  obtain ⟨text, htext⟩ := hslice
  have hpiece := htext
  rw [Token.text?, Span.slice?_eq, Option.map_eq_some_iff] at hpiece
  obtain ⟨comment, hcomment, rfl⟩ := hpiece
  obtain ⟨front, back, hsource, hlocation, hlength⟩ := Span.chars?_eq_some_iff.1 hcomment
  have hstop : t.span.stop = byteLength (front ++ comment) := by
    rw [byteLength_append, hlocation, hlength, Span.stop]
  have hlocation' : t'.span.location = byteLength (withReturns front) := by
    rw [htoken.location, ← hlocation, hsource, List.append_assoc, returnedOffset_byteLength]
  have hplace : returnedOffset context.source.toList t.span.stop = byteLength (withReturns (front ++ comment)) := by
    rw [hstop, hsource, returnedOffset_byteLength]
  rw [withReturns_append, byteLength_append] at hplace
  -- the text of the comment is what stands between its bounds
  have hbetween : ∀ tail back', withReturns context.source.toList =
      withReturns front ++ (withReturns comment ++ tail) ++ back' →
      t'.span.stop = byteLength (withReturns front) + byteLength (withReturns comment ++ tail) →
      t'.text? context'.source = some (String.ofList (withReturns comment ++ tail)) := by
    intro tail back' hsource' hstop'
    rw [Token.text?, Span.slice?_eq, h.source, toList_returned, Option.map_eq_some_iff]
    refine ⟨_, Span.chars?_eq_some_iff.2 ⟨_, back', hsource', hlocation'.symm, ?_⟩, rfl⟩
    rw [Span.stop, hlocation'] at hstop'
    exact (Nat.add_left_cancel hstop').symm
  rcases htoken.stop with hstop' | ⟨-, hnewline, hstop'⟩
  · refine ⟨front, comment, back, [], hsource, .inl rfl, hlocation.symm, htext, hbetween [] (withReturns back) ?_ ?_⟩
    · rw [hsource, List.append_nil, withReturns_append, withReturns_append]
    · rw [hstop', hplace, List.append_nil]
  · obtain ⟨before, behind, hparts, hbefore⟩ := hnewline
    rw [hstop] at hbefore
    have hback : back = '\n' :: behind := by
      rw [hsource, List.append_assoc before] at hparts
      exact (append_inj_of_byteLength_eq hparts hbefore.symm).2
    refine ⟨front, comment, back, ['\r'], hsource, .inr rfl, hlocation.symm, htext,
      hbetween ['\r'] ('\n' :: withReturns behind) ?_ ?_⟩
    · rw [hsource, hback]
      simp
    · rw [hstop', hplace, byteLength_append]
      rfl

/-- The directives of a text have the same lines with carriage returns. -/
theorem Context.Returned.directives (h : Context.Returned context context') :
    Suppression.directives context'.source context'.snapshot.tokens context'.lines =
      Suppression.directives context.source context.snapshot.tokens context.lines := by
  have htokens := forall₂_filter ((List.forall₂_and_left _ _).2 ⟨fun t ht => ht, h.snapshot.tokens⟩)
    (p := fun token => token.kind == .comment) (q := fun token => token.kind == .comment)
    fun t t' htoken => by rw [htoken.2.kind]
  rw [Suppression.directives, Suppression.directives]
  generalize context.snapshot.tokens.toList.filter _ = comments at htokens ⊢
  generalize context'.snapshot.tokens.toList.filter _ = comments' at htokens ⊢
  induction htokens with
  | nil => rfl
  | @cons t t' ts ts' htoken _ ih =>
      rw [List.flatMap_cons, List.flatMap_cons, ih]
      congr 1
      obtain ⟨front, comment, back, tail, hsource, htail, hlocation, htext, htext'⟩ :=
        h.exists_comment htoken.1 htoken.2
      have hfound := Directive.directivesBehind_returned htail [] comment
      rw [withReturns_nil, List.nil_append] at hfound
      rw [htext, htext']
      dsimp only
      rw [Directive.ofComment_eq, Directive.ofComment_eq, String.toList_ofList, String.toList_ofList, hfound,
        List.map_map]
      refine List.map_congr_left fun found hmem => ?_
      have hplace : t'.span.location + returnedOffset comment found.1 =
          returnedOffset context.source.toList (t.span.location + found.1) := by
        have hinside := returnedOffset_append_of_le (Directive.le_of_mem_directivesBehind hmem) back
        rw [htoken.2.location, hlocation, hsource, List.append_assoc, returnedOffset_byteLength,
          returnedOffset_append, hinside]
      rw [Function.comp, hplace, h.lineOf]

end Suppression

/-! ### Rules -/

/-- The violation does not take the end of a line for something else. -/
def Violation.isSound (source : String) (v : Violation) : Bool :=
  !LiteralBrackets.isFalseAlarm source v.rule v.reason v.offset

/-- The rule reports the same with carriage returns, but for what is not sound. -/
structure Rule.IgnoresReturns (rule : Rule) : Prop where
  file : ∀ {context context'}, Context.Returned context context' →
    List.Forall₂ (Violation.Returned context.source.toList) (rule.fileViolations context)
      ((rule.fileViolations context').filter (Violation.isSound context'.source))
  node : ∀ {context context'}, Context.Returned context context' →
    ∀ node ∈ Node.listingAll context.snapshot.forest,
      List.Forall₂ (Violation.Returned context.source.toList) (rule.nodeViolations context node)
        ((rule.nodeViolations context' ((Relocation.returns context.source.toList).node node)).filter
          (Violation.isSound context'.source))

namespace Rule.IgnoresReturns

variable {rule : Rule}

theorem filter_isSound {identifier : String} {violations : List Violation}
    (hrule : identifier ≠ LiteralBrackets.identifier)
    (h : ∀ v ∈ violations, v.rule = identifier) (source : String) :
    violations.filter (Violation.isSound source) = violations := by
  rw [List.filter_eq_self]
  intro v hv
  have hne : v.rule ≠ LiteralBrackets.identifier := by rwa [h v hv]
  rw [Violation.isSound, LiteralBrackets.isFalseAlarm_of_ne hne]
  rfl

theorem ofFile (identifier : String) {run : Context → List Violation} (hcheck : rule.check = .file run)
    (hrule : identifier ≠ LiteralBrackets.identifier) (hsigns : ∀ context, ∀ v ∈ run context, v.rule = identifier)
    (h : ∀ context context', Context.Returned context context' →
      List.Forall₂ (Violation.Returned context.source.toList) (run context) (run context')) :
    rule.IgnoresReturns where
  file {context context'} hcontext := by
    simp only [fileViolations, hcheck, filter_isSound hrule (hsigns context')]
    exact h context context' hcontext
  node _ _ _ := by
    simp only [nodeViolations, hcheck]
    exact .nil

theorem ofNodes {kinds : List NodeKind} {run : Context → Node → List Violation}
    (hcheck : rule.check = .nodes kinds run)
    (h : ∀ context context', Context.Returned context context' → ∀ node ∈ Node.listingAll context.snapshot.forest,
      List.Forall₂ (Violation.Returned context.source.toList) (run context node)
        ((run context' ((Relocation.returns context.source.toList).node node)).filter
          (Violation.isSound context'.source))) :
    rule.IgnoresReturns where
  file _ := by
    simp only [fileViolations, hcheck]
    exact .nil
  node {context context'} hcontext node hnode := by
    simp only [nodeViolations, hcheck]
    exact h context context' hcontext node hnode

theorem ofPlainNodes (identifier : String) {kinds : List NodeKind} {run : Context → Node → List Violation}
    (hcheck : rule.check = .nodes kinds run) (hrule : identifier ≠ LiteralBrackets.identifier)
    (hsigns : ∀ context node, ∀ v ∈ run context node, v.rule = identifier)
    (h : ∀ context context', Context.Returned context context' → ∀ node ∈ Node.listingAll context.snapshot.forest,
      List.Forall₂ (Violation.Returned context.source.toList) (run context node)
        (run context' ((Relocation.returns context.source.toList).node node))) :
    rule.IgnoresReturns := by
  refine .ofNodes hcheck fun context context' hcontext node hnode => ?_
  rw [filter_isSound hrule (hsigns context' _)]
  exact h context context' hcontext node hnode

theorem visit (h : rule.IgnoresReturns) {context context' : Context} (hcontext : Context.Returned context context')
    {node : Node} (hnode : node ∈ Node.listingAll context.snapshot.forest) :
    List.Forall₂ (Violation.Returned context.source.toList) (rule.visit context node)
      ((rule.visit context' ((Relocation.returns context.source.toList).node node)).filter
        (Violation.isSound context'.source)) := by
  have hvisit : ∀ context node, rule.visit context node =
      (List.replicate (rule.kinds.count node.kind) ()).flatMap fun _ => rule.nodeViolations context node := by
    intro context node
    rw [Rule.visit, List.flatMap, List.map_replicate]
  rw [hvisit, hvisit, Relocation.kind_node]
  exact forall₂_filter_flatMap _ fun _ _ => h.node hcontext node hnode

end Rule.IgnoresReturns

namespace Registry

theorem ignoresReturns_ofSeverity {config : Config} {make : SeverityOptions → Rule}
    (h : ∀ options, (make options).IgnoresReturns) :
    ∀ rule, (KnownRule.ofSeverity make).build config = .ok rule → rule.IgnoresReturns := by
  intro rule hrule
  obtain ⟨options, rfl⟩ := KnownRule.exists_of_ofSeverity hrule
  exact h options

theorem ignoresReturns_standard (config : Config) : ∀ known ∈ standard.known, ∀ rule,
    known.build config = .ok rule → rule.IgnoresReturns := by
  rw [standard]
  simp only [List.forall_mem_cons]
  refine ⟨?_, ?_, ?_, ?_, ?_, ?_, ?_, by simp⟩
  · exact ignoresReturns_ofSeverity fun options => .ofPlainNodes UnusedEnumerated.identifier rfl
      (by decide) (fun _ _ _ h => (UnusedEnumerated.isRemark_of_mem h).rule_eq)
      fun _ _ h _ hnode => UnusedEnumerated.violations_returned options.severity h hnode
  · exact ignoresReturns_ofSeverity fun options => .ofPlainNodes UnownedVariableCapture.identifier rfl
      (by decide) (fun _ _ _ h => (UnownedVariableCapture.isRemark_of_mem h).rule_eq)
      fun _ _ h _ hnode => UnownedVariableCapture.violations_returned options.severity h hnode
  · exact ignoresReturns_ofSeverity fun options => .ofNodes rfl
      fun _ _ h node _ => LiteralBrackets.violations_returned options.severity h node
  · exact ignoresReturns_ofSeverity fun options => .ofFile TrailingSemicolon.identifier rfl (by decide)
      (fun _ _ h => TrailingSemicolon.rule_eq_of_mem h)
      fun _ _ h => TrailingSemicolon.violations_returned options.severity h
  · exact ignoresReturns_ofSeverity fun options => .ofFile CommaSpacing.identifier rfl (by decide)
      (fun _ _ h => CommaSpacing.rule_eq_of_mem h) fun _ _ h => CommaSpacing.violations_returned options.severity h
  · exact ignoresReturns_ofSeverity fun options => .ofFile OpenRemark.identifier rfl (by decide)
      (fun _ _ h => (OpenRemark.isRemark_of_mem h).rule_eq)
      fun _ _ h => OpenRemark.violations_returned options.severity h
  · intro rule hrule
    obtain ⟨options, -, rfl⟩ := exceptMap_eq_ok_iff.1 hrule
    exact .ofFile LineLength.identifier rfl (by decide)
      (fun _ _ h => (LineLength.isRemark_of_mem h).rule_eq) fun _ _ h => LineLength.violations_returned options h

end Registry

/-! ### Linting -/

namespace Linter

variable {linter : Linter} {config : Config} {source : String} {snapshot snapshot' : Snapshot}

theorem ignoresReturns_of_ofConfig (h : ofConfig config = .ok linter) :
    (∀ rule ∈ linter.rules, rule.IgnoresReturns) ∧ linter.provider = Snapshot.ofSource := by
  obtain ⟨rules, hrules, rfl⟩ := exceptMap_eq_ok_iff.1 h
  obtain ⟨all, hall, rfl⟩ := exceptMap_eq_ok_iff.1 hrules
  refine ⟨fun rule hrule => ?_, rfl⟩
  exact Registry.forall_of_buildAll (Registry.ignoresReturns_standard config) hall rule (List.mem_filter.1 hrule).1

/-- Directives turn off the same violations with carriage returns. -/
theorem withoutSuppressed_returned {context context' : Context} (h : Context.Returned context context')
    {violations violations' : List Violation}
    (hreported : List.Forall₂ (Violation.Returned context.source.toList) violations
      (violations'.filter (Violation.isSound context'.source))) :
    List.Forall₂ (Violation.Returned context.source.toList) (withoutSuppressed context violations)
      ((withoutSuppressed context' violations').filter (Violation.isSound context'.source)) := by
  have hsuppression : Suppression.ofTokens context'.source context'.snapshot.tokens context'.lines =
      Suppression.ofTokens context.source context.snapshot.tokens context.lines := by
    rw [Suppression.ofTokens, Suppression.ofTokens, h.directives]
  rw [withoutSuppressed_eq, withoutSuppressed_eq, List.filter_comm, hsuppression]
  refine forall₂_filter hreported fun v v' hv => ?_
  rw [hv.rule, hv.offset, h.lineOf]

/-- What a linter reports on a text with carriage returns, but for what is not sound. -/
theorem lintSnapshot_returned (hrules : ∀ rule ∈ linter.rules, rule.IgnoresReturns)
    (h : Context.Returned (linter.context source snapshot) (linter.context (returned source) snapshot')) :
    List.Forall₂ (Violation.Returned source.toList) (linter.lintSnapshot source snapshot)
      ((linter.lintSnapshot (returned source) snapshot').filter (Violation.isSound (returned source))) := by
  have hforest : snapshot'.forest = (Relocation.returns source.toList).nodes snapshot.forest := h.snapshot.forest
  rw [lintSnapshot_eq_visits, lintSnapshot_eq_visits, Node.preOrder_eq_listingAll, Node.preOrder_eq_listingAll,
    hforest, Relocation.listingAll_nodes, List.flatMap_map]
  refine withoutSuppressed_returned h ?_
  rw [List.filter_append]
  refine List.rel_append (forall₂_filter_flatMap linter.rules fun rule hrule => (hrules rule hrule).file h) ?_
  exact forall₂_filter_flatMap (Node.listingAll snapshot.forest) fun node hnode =>
    forall₂_filter_flatMap linter.rules fun rule hrule => (hrules rule hrule).visit h hnode

end Linter

/-! ### Reports -/

/-- What a report says about a violation, wherever it is in the bytes of the text. -/
def ReportedViolation.saying (v : ReportedViolation) : String × Severity × Nat × Nat × String :=
  (v.rule, v.severity, v.line, v.column, v.reason)

/-- What came of linting a text, and what came of it with carriage returns: neither could be read, or both were, and the
reports say the same but for false alarms at opening brackets. Only an escaped newline in a string literal makes a text
unreadable with carriage returns. -/
inductive FileOutcome.ReportedAlike (source : String) : FileOutcome → FileOutcome → Prop
  | failed (path path' : String) (e e' : SyntaxError) : ReportedAlike source (.failed path e) (.failed path' e')
  | linted {report report' : FileReport}
      (h : (report'.violations.filter fun v =>
        !LiteralBrackets.isFalseAlarm (returned source) v.rule v.reason v.offset).map ReportedViolation.saying =
          report.violations.map ReportedViolation.saying) :
      ReportedAlike source (.linted report) (.linted report')
  | lost {snapshot : Snapshot} (report : FileReport) (path' : String) (e' : SyntaxError)
      (hsnapshot : Snapshot.ofSource source = .ok snapshot) {token : Token} (htoken : token ∈ snapshot.tokens.toList)
      (hkind : token.kind = .string) {text : String} (htext : token.text? source = some text)
      (hescape : EscapesNewline text.toList) : ReportedAlike source (.linted report) (.failed path' e')

theorem FileReport.sayings_returned {source : String} {violations violations' : List Violation} (path path' : String)
    (h : List.Forall₂ (Violation.Returned source.toList) violations
      (violations'.filter (Violation.isSound (returned source)))) :
    (((ofViolations path' (returned source) violations').violations.filter fun v =>
        !LiteralBrackets.isFalseAlarm (returned source) v.rule v.reason v.offset).map ReportedViolation.saying) =
      (ofViolations path source violations).violations.map ReportedViolation.saying := by
  have hsorted : List.Forall₂ (Violation.Returned source.toList) (sortBy Violation.offset violations)
      ((sortBy Violation.offset violations').filter (Violation.isSound (returned source))) := by
    rw [filter_sortBy_eq]
    refine forall₂_sortBy (fun v v' w w' hv hw => ?_) h
    rw [hv.offset, hw.offset, returnedOffset_le_iff]
  rw [violations_ofViolations, violations_ofViolations, List.filter_map, List.map_map, List.map_map,
    ← List.forall₂_eq_eq_eq, List.forall₂_map_left_iff, List.forall₂_map_right_iff]
  refine hsorted.flip.imp fun v' v hv => ?_
  simp only [Function.comp, ReportedViolation.saying, ReportedViolation.ofViolation, hv.rule, hv.severity, hv.reason,
    hv.offset, LineIndex.position_returned]

/-- What the report on a file says, or none where it was not linted. -/
def FileOutcome.sayings? : FileOutcome → Option (List (String × Severity × Nat × Nat × String))
  | .linted report => some (report.violations.map ReportedViolation.saying)
  | .failed _ _ => none
  | .cancelled _ => none

namespace Linter

variable {linter : Linter} {config : Config} {source : String}

/-- Line endings matter only to the rule on the brackets of literals and to escaped newlines in string literals: but for
these, a text without carriage returns has the same report with a carriage return before each newline. -/
theorem lintFile_returned (hlinter : ofConfig config = .ok linter) (path : String) (hreturn : '\r' ∉ source.toList) :
    FileOutcome.ReportedAlike source (linter.lintFile ⟨path, source⟩) (linter.lintFile ⟨path, returned source⟩) := by
  obtain ⟨hrules, hprovider⟩ := ignoresReturns_of_ofConfig hlinter
  have hread := Snapshot.ofSource_returned hreturn
  rw [lintFile, lintFile, hprovider]
  dsimp only
  generalize hplain : Snapshot.ofSource source = plain at hread
  generalize hreturned : Snapshot.ofSource (returned source) = inReturns at hread
  cases hread with
  | failed e e' => exact .failed path path e e'
  | found hsnapshot =>
      refine .linted (FileReport.sayings_returned path path (lintSnapshot_returned hrules ?_))
      exact ⟨hreturn, rfl, hsnapshot, hplain, hreturned, rfl, rfl⟩
  | lost e' htoken hkind htext hescape => exact .lost _ path e' hplain htoken hkind htext hescape

/-- The opening bracket of a literal is reported with carriage returns, although it ends its line. -/
theorem sayings?_lintFile_bracket :
    ∃ config linter source, config = ({ global := { enable := [LiteralBrackets.identifier] } } : Config) ∧
      source = "let a = [\n  1\n]" ∧ ofConfig config = .ok linter ∧
        (linter.lintFile ⟨"", source⟩).sayings? = some [] ∧
          (linter.lintFile ⟨"", returned source⟩).sayings? =
            some [(LiteralBrackets.identifier, .warning, 1, 10, LiteralBrackets.openingReason)] := by
  have hrun : ((ofConfig { global := { enable := [LiteralBrackets.identifier] } }).toOption.any fun linter =>
      (linter.lintFile ⟨"", "let a = [\n  1\n]"⟩).sayings? == some [] &&
        (linter.lintFile ⟨"", returned "let a = [\n  1\n]"⟩).sayings? ==
          some [(LiteralBrackets.identifier, .warning, 1, 10, LiteralBrackets.openingReason)]) = true := by
    decide +kernel
  obtain ⟨linter, hlinter, hrun⟩ := exists_of_toOption_any hrun
  obtain ⟨hplain, hreturned⟩ := Bool.and_eq_true_iff.1 hrun
  exact ⟨_, linter, _, rfl, rfl, hlinter, eq_of_beq hplain, eq_of_beq hreturned⟩

/-- An escaped newline in a string literal makes a text unreadable with carriage returns. -/
theorem lintFile_escapedNewline :
    ∃ linter source, ofConfig {} = .ok linter ∧ source = "let a = \"x\\\ny\"" ∧
      (linter.lintFile ⟨"", source⟩).sayings? = some [] ∧
        linter.lintFile ⟨"", returned source⟩ = .failed "" (.unterminatedString 8) := by
  have hrun : ((ofConfig {}).toOption.any fun linter =>
      (linter.lintFile ⟨"", "let a = \"x\\\ny\""⟩).sayings? == some [] &&
        linter.lintFile ⟨"", returned "let a = \"x\\\ny\""⟩ == .failed "" (.unterminatedString 8)) = true := by
    decide +kernel
  obtain ⟨linter, hlinter, hrun⟩ := exists_of_toOption_any hrun
  obtain ⟨hplain, hreturned⟩ := Bool.and_eq_true_iff.1 hrun
  exact ⟨linter, _, hlinter, rfl, eq_of_beq hplain, eq_of_beq hreturned⟩

theorem exists_rule_of_mem {report : FileReport} {path : String} (hsigns : ∀ rule ∈ linter.rules, rule.SignsReports)
    (hreport : linter.lintFile ⟨path, source⟩ = .linted report) {v : ReportedViolation} (hv : v ∈ report.violations) :
    ∃ rule ∈ linter.rules, v.rule = rule.identifier := by
  obtain ⟨violations, hlint, rfl⟩ := lintFile_eq_linted_iff.1 hreport
  obtain ⟨snapshot, -, rfl⟩ := exceptMap_eq_ok_iff.1 hlint
  rw [FileReport.violations_ofViolations] at hv
  obtain ⟨w, hw, rfl⟩ := List.mem_map.1 hv
  rw [(sortBy_perm _ _).mem_iff, lintSnapshot_eq_visits, withoutSuppressed_eq] at hw
  rcases List.mem_append.1 (List.mem_filter.1 hw).1 with hw | hw
  · obtain ⟨rule, hrule, hw⟩ := List.mem_flatMap.1 hw
    exact ⟨rule, hrule, (hsigns rule hrule).file _ w hw⟩
  · obtain ⟨node, -, hw⟩ := List.mem_flatMap.1 hw
    obtain ⟨rule, hrule, hw⟩ := List.mem_flatMap.1 hw
    exact ⟨rule, hrule, (hsigns rule hrule).visit _ node w hw⟩

/-- Line endings do not matter to a linter without the rule on the brackets of literals, where no string literal escapes
a newline: a text without carriage returns is read just when it is with a carriage return before each newline, and its
report says the same. -/
theorem sayings?_lintFile_returned (hlinter : ofConfig config = .ok linter) (path : String)
    (hreturn : '\r' ∉ source.toList) (hrules : ∀ rule ∈ linter.rules, rule.identifier ≠ LiteralBrackets.identifier)
    (hescape : ∀ snapshot, Snapshot.ofSource source = .ok snapshot → ∀ token ∈ snapshot.tokens.toList,
      token.kind = .string → ∀ text, token.text? source = some text → ¬EscapesNewline text.toList) :
    (linter.lintFile ⟨path, returned source⟩).sayings? = (linter.lintFile ⟨path, source⟩).sayings? := by
  have halike := lintFile_returned hlinter path hreturn
  generalize linter.lintFile ⟨path, source⟩ = plain at halike
  generalize hreturned : linter.lintFile ⟨path, returned source⟩ = inReturns at halike
  cases halike with
  | failed => rfl
  | @linted report report' h =>
      have hsound : report'.violations.filter (fun v =>
          !LiteralBrackets.isFalseAlarm (returned source) v.rule v.reason v.offset) = report'.violations := by
        rw [List.filter_eq_self]
        intro v hv
        obtain ⟨rule, hrule, hsigned⟩ := exists_rule_of_mem (signs_of_ofConfig hlinter).2 hreturned hv
        rw [LiteralBrackets.isFalseAlarm_of_ne (hsigned ▸ hrules rule hrule)]
        rfl
      rw [hsound] at h
      exact congrArg some h
  | lost _ _ _ hsnapshot htoken hkind htext hescaped =>
      exact absurd hescaped (hescape _ hsnapshot _ htoken hkind _ htext)

end Linter

end SourceLint
