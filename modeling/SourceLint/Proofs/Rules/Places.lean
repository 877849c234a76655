import SourceLint.Proofs.Linter.Corrections
import SourceLint.Proofs.Text.Boundaries

/-!
# Where the standard rules report

Nothing but the order of its tokens and nodes is known of a snapshot: the spans of names, bodies, elements and
attributes may lie anywhere. Still, a standard rule reports only in places of the source, and its edits replace
pieces of the source. A rule that goes by a span of the snapshot compares the text under it first, and there is
none under a span that leaves the source or cuts a character. The other rules go by offsets that they have
counted in the source themselves.

## Main results

* `Linter.inPlace_lintSnapshot`: what a linter reports, whatever snapshot it is given.
-/

namespace SourceLint

/-! ### Places of a source -/

namespace Span

variable {r : Span} {source text : String}

/-- There is a text under a span exactly when there are characters under it. -/
theorem exists_slice?_iff :
    (∃ text, r.slice? source = some text) ↔ ∃ piece, r.chars? source.toList = some piece := by
  simp only [slice?_eq, Option.map_eq_some_iff]
  constructor
  · rintro ⟨text, piece, hpiece, -⟩
    exact ⟨piece, hpiece⟩
  · rintro ⟨piece, hpiece⟩
    exact ⟨String.ofList piece, piece, hpiece, rfl⟩

/-- A span with a text under it begins and ends between characters. -/
theorem isBoundary_of_slice? (h : r.slice? source = some text) :
    IsBoundary r.location source.toList ∧ IsBoundary r.stop source.toList := by
  obtain ⟨piece, hpiece⟩ := exists_slice?_iff.1 ⟨text, h⟩
  obtain ⟨front, back, hsource, hlocation, hlength⟩ := chars?_eq_some_iff.1 hpiece
  constructor
  · exact isBoundary_iff.2 ⟨front, piece ++ back, by rw [hsource, List.append_assoc], hlocation⟩
  · refine isBoundary_iff.2 ⟨front ++ piece, back, hsource, ?_⟩
    rw [byteLength_append, hlocation, hlength, stop]

end Span

/-- The violation points between two characters of the source or at one of its ends, and its correction, if
it has one, is about a piece of the source. -/
structure Violation.InPlace (v : Violation) (source : String) : Prop where
  isBoundary : IsBoundary v.offset source.toList
  slices : ∀ correction, v.correction = some correction →
    ∃ piece, correction.span.slice? source = some piece

theorem Violation.IsRemark.inPlace {v : Violation} {identifier source : String}
    (h : v.IsRemark identifier) (hoffset : IsBoundary v.offset source.toList) : v.InPlace source where
  isBoundary := hoffset
  slices := by
    intro correction hcorrection
    rw [h.correction_eq] at hcorrection
    cases hcorrection

/-- A violation is in place when it points at the beginning of its correction, which has a piece of the source
under it. -/
theorem Violation.InPlace.of_correction {v : Violation} {correction : Correction} {source : String}
    {piece : List Char} (hcorrection : v.correction = some correction)
    (hoffset : v.offset = correction.span.location)
    (hpiece : correction.span.chars? source.toList = some piece) : v.InPlace source := by
  obtain ⟨text, htext⟩ := Span.exists_slice?_iff.2 ⟨piece, hpiece⟩
  constructor
  · rw [hoffset]
    exact (Span.isBoundary_of_slice? htext).1
  · intro other hother
    obtain rfl := Option.some.inj (hcorrection.symm.trans hother)
    exact ⟨text, htext⟩

/-! ### Rules that go by spans of the snapshot -/

variable {severity : Severity} {context : Context} {node : Node} {v : Violation}

theorem UnusedEnumerated.slice?_of_isDropped {token : Token} (h : isDropped context token = true) :
    token.span.slice? context.source = some "_" := by
  simp only [isDropped, Bool.and_eq_true, beq_iff_eq] at h
  exact h.2

/-- The underscore that is found stands in the source. -/
theorem UnusedEnumerated.slice?_of_finding? {first last : Token} {finding : Token × String}
    (h : finding? context first last = some finding) :
    finding.1.span.slice? context.source = some "_" := by
  rw [finding?] at h
  split at h
  · rename_i hfirst _
    obtain rfl := Option.some.inj h
    exact slice?_of_isDropped hfirst
  · rename_i _ hlast
    obtain rfl := Option.some.inj h
    exact slice?_of_isDropped hlast
  · cases h

theorem UnusedEnumerated.inPlace_of_mem (h : v ∈ violations severity context node) :
    v.InPlace context.source := by
  apply (isRemark_of_mem h).inPlace
  rw [violations] at h
  split at h
  · split at h
    · obtain ⟨finding, hfinding, rfl⟩ := Option.map_eq_some_iff.1 (Option.mem_toList.1 h)
      exact (Span.isBoundary_of_slice? (slice?_of_finding? hfinding)).1
    · cases h
  · cases h

theorem UnownedVariableCapture.slice?_of_unownedWithin? {captures : Span} {modifier : Attribute}
    (h : unownedWithin? context captures node = some modifier) :
    modifier.span.slice? context.source = some "unowned" := by
  rw [unownedWithin?] at h
  split at h
  · have hunowned := List.find?_some h
    simp only [isUnowned, Context.contents?, Bool.and_eq_true, beq_iff_eq] at hunowned
    exact hunowned.2
  · cases h

theorem UnownedVariableCapture.inPlace_of_mem (h : v ∈ violations severity context node) :
    v.InPlace context.source := by
  apply (isRemark_of_mem h).inPlace
  rw [violations] at h
  split at h
  · obtain ⟨modifier, hmodifier, rfl⟩ := List.mem_map.1 h
    obtain ⟨inner, -, hwithin⟩ := List.mem_filterMap.1 hmodifier
    exact (Span.isBoundary_of_slice? (slice?_of_unownedWithin? hwithin)).1
  · cases h

/-- What the rule says about a literal, it says about one of the ends of its body. -/
theorem LiteralBrackets.offset_of_mem {body : Span} {text : List Char}
    (h : v ∈ violationsIn severity body text) : v.offset = body.location ∨ v.offset = body.stop := by
  unfold violationsIn at h
  simp only at h
  split at h
  · rcases List.mem_append.1 h with h | h
    · split at h
      · cases h
      · rw [List.mem_singleton.1 h]
        exact .inl rfl
    · split at h
      · cases h
      · rw [List.mem_singleton.1 h]
        exact .inr rfl
  · cases h

theorem LiteralBrackets.inPlace_of_mem (h : v ∈ violations severity context node) :
    v.InPlace context.source := by
  apply (isRemark_of_mem h).inPlace
  rw [violations] at h
  split at h
  · rename_i body _
    split at h
    · rename_i text htext
      obtain ⟨hlocation, hstop⟩ := Span.isBoundary_of_slice? htext
      rcases offset_of_mem h with hoffset | hoffset
      · rw [hoffset]
        exact hlocation
      · rw [hoffset]
        exact hstop
    · cases h
  · cases h

/-! ### Rules that go by offsets of the source -/

/-- The text of a line stands under its span. -/
theorem LineIndex.slice?_of_mem_lines {index : LineIndex} {line : Line} (h : line ∈ index.lines) :
    line.span.slice? index.content = some line.text := by
  obtain ⟨number, -, hline⟩ := List.mem_filterMap.1 h
  simp only [Option.bind_eq_bind, Option.bind_eq_some_iff, Option.pure_def, Option.some.injEq] at hline
  obtain ⟨span, -, text, htext, rfl⟩ := hline
  exact htext

theorem LineLength.inPlace_of_mem {options : LineLengthOptions}
    (hlines : context.lines.content = context.source) (h : v ∈ violations options context) :
    v.InPlace context.source := by
  apply (isRemark_of_mem h).inPlace
  obtain ⟨line, hline, rfl⟩ := List.mem_map.1 h
  have htext := LineIndex.slice?_of_mem_lines (List.mem_filter.1 hline).1
  rw [hlines] at htext
  exact (Span.isBoundary_of_slice? htext).1

namespace OpenRemark

variable {marker : Marker}

theorem offset_of_markerAt? {offset : Nat} {cs : List Char} (h : markerAt? offset cs = some marker) :
    marker.offset = offset := by
  rw [markerAt?.eq_def] at h
  split at h
  · split at h
    · obtain rfl := Option.some.inj h
      rfl
    · cases h
  · split at h
    · obtain rfl := Option.some.inj h
      rfl
    · cases h
  · cases h

theorem isBoundary_of_mem_markersFrom {front cs : List Char} {withinWord : Bool}
    (h : marker ∈ markersFrom (byteLength front) withinWord cs) :
    IsBoundary marker.offset (front ++ cs) := by
  induction cs generalizing front withinWord with
  | nil => cases h
  | cons c cs ih =>
      have hlater : marker ∈ markersFrom (byteLength front + c.utf8Size) (isWordChar c) cs →
          IsBoundary marker.offset (front ++ c :: cs) := by
        intro h
        have hoffset : byteLength front + c.utf8Size = byteLength (front ++ [c]) := by simp
        rw [hoffset] at h
        simpa using ih h
      rw [markersFrom] at h
      split at h
      · rename_i first hfirst
        rcases List.mem_cons.1 h with rfl | h
        · split at hfirst
          · cases hfirst
          · exact isBoundary_iff.2 ⟨front, c :: cs, rfl, (offset_of_markerAt? hfirst).symm⟩
        · exact hlater h
      · exact hlater h

theorem inPlace_of_mem (h : v ∈ violations severity context) : v.InPlace context.source := by
  apply (isRemark_of_mem h).inPlace
  obtain ⟨marker, hmarker, rfl⟩ := List.mem_map.1 h
  exact @isBoundary_of_mem_markersFrom marker [] _ false (List.mem_filter.1 hmarker).1

end OpenRemark

/-- A run of semicolons stands in the text. -/
theorem TrailingSemicolon.exists_chars?_of_mem_runs {cs : List Char} {run : Span} (h : run ∈ runs cs) :
    ∃ piece, run.chars? cs = some piece := by
  have hruns : runs cs = (runsAt 0 [] (Mark.ofChars false 1 cs)).map spanOf := by
    simpa [runs] using runsFrom_eq 0 [] (Mark.ofChars false 1 cs)
  rw [hruns] at h
  obtain ⟨r, hr, rfl⟩ := List.mem_map.1 h
  obtain ⟨before, behind, hmarks, hlocation, -, hrun⟩ := isPiece_of_mem hr
  refine ⟨Mark.chars r.2, Span.chars?_eq_some_iff.2 ⟨Mark.chars before, Mark.chars behind, ?_, ?_, ?_⟩⟩
  · have hcs := congrArg Mark.chars hmarks
    simpa using hcs
  · exact hlocation.symm
  · exact byteLength_run hrun.semicolons

theorem TrailingSemicolon.inPlace_of_mem (h : v ∈ violations severity context) :
    v.InPlace context.source := by
  obtain ⟨run, hrun, rfl⟩ := List.mem_map.1 h
  obtain ⟨piece, hpiece⟩ := exists_chars?_of_mem_runs (List.mem_filter.1 hrun).1
  exact .of_correction rfl rfl hpiece

/-- In a text without comments and literals, every comma may get an edit. -/
theorem CommaSpacing.edits_ofChars (offset line : Nat) (before cs : List Char) :
    edits (fun _ => false) offset before (Mark.ofChars false line cs) =
      (sitesFrom offset before cs).filterMap Site.correction? := by
  induction cs generalizing offset line before with
  | nil => rfl
  | cons c cs ih =>
      rw [Mark.ofChars, edits, sitesFrom, Mark.chars_ofChars, ih]
      by_cases hc : c = ','
      · cases hsite : Site.correction? ⟨offset, before, cs⟩ with
        | none => simp [isLive, hc, hsite]
        | some e => simp [isLive, hc, hsite]
      · simp [isLive, hc]

theorem CommaSpacing.inPlace_of_mem (h : v ∈ violations severity context) :
    v.InPlace context.source := by
  obtain ⟨e, he, rfl⟩ := List.mem_map.1 h
  obtain ⟨site, hsite, hcorrection⟩ := List.mem_filterMap.1 he
  -- whether the comma is in a comment does not matter for where it stands
  have hedit : e ∈ edits (fun _ => false) 0 [] (Mark.ofChars false 1 context.source.toList) := by
    rw [edits_ofChars]
    exact List.mem_filterMap.2 ⟨site, (List.mem_filter.1 hsite).1, hcorrection⟩
  obtain ⟨⟨piece, hpiece, -⟩, -⟩ := edits_pieces hedit
  rw [Mark.chars_ofChars] at hpiece
  exact .of_correction rfl rfl hpiece

/-! ### Linters -/

/-- Whatever snapshot the rule is given, it reports in places of the source. -/
structure Rule.StaysInPlace (rule : Rule) : Prop where
  file : ∀ context, context.lines.content = context.source →
    ∀ v ∈ rule.fileViolations context, v.InPlace context.source
  node : ∀ context node, ∀ v ∈ rule.nodeViolations context node, v.InPlace context.source

namespace Rule.StaysInPlace

variable {rule : Rule}

theorem ofFile {run : Context → List Violation} (hcheck : rule.check = .file run)
    (h : ∀ context, context.lines.content = context.source → ∀ v ∈ run context,
      v.InPlace context.source) : rule.StaysInPlace where
  file := by simpa [fileViolations, hcheck] using h
  node := by simp [nodeViolations, hcheck]

theorem ofNodes {kinds : List NodeKind} {run : Context → Node → List Violation}
    (hcheck : rule.check = .nodes kinds run)
    (h : ∀ context node, ∀ v ∈ run context node, v.InPlace context.source) : rule.StaysInPlace where
  file := by simp [fileViolations, hcheck]
  node := by simpa [nodeViolations, hcheck] using h

theorem visit (h : rule.StaysInPlace) : ∀ v ∈ rule.visit context node, v.InPlace context.source := by
  intro v hv
  exact h.node context node v (mem_nodeViolations_of_mem_visit hv)

end Rule.StaysInPlace

namespace Registry

theorem staysInPlace_ofSeverity {config : Config} {make : SeverityOptions → Rule}
    (h : ∀ options, (make options).StaysInPlace) :
    ∀ rule, (KnownRule.ofSeverity make).build config = .ok rule → rule.StaysInPlace := by
  intro rule hrule
  obtain ⟨options, rfl⟩ := KnownRule.exists_of_ofSeverity hrule
  exact h options

theorem staysInPlace_standard (config : Config) : ∀ known ∈ standard.known, ∀ rule,
    known.build config = .ok rule → rule.StaysInPlace := by
  rw [standard]
  simp only [List.forall_mem_cons]
  refine ⟨?_, ?_, ?_, ?_, ?_, ?_, ?_, by simp⟩
  · exact staysInPlace_ofSeverity fun _ => .ofNodes rfl fun _ _ _ => UnusedEnumerated.inPlace_of_mem
  · exact staysInPlace_ofSeverity fun _ => .ofNodes rfl fun _ _ _ =>
      UnownedVariableCapture.inPlace_of_mem
  · exact staysInPlace_ofSeverity fun _ => .ofNodes rfl fun _ _ _ => LiteralBrackets.inPlace_of_mem
  · exact staysInPlace_ofSeverity fun _ => .ofFile rfl fun _ _ _ => TrailingSemicolon.inPlace_of_mem
  · exact staysInPlace_ofSeverity fun _ => .ofFile rfl fun _ _ _ => CommaSpacing.inPlace_of_mem
  · exact staysInPlace_ofSeverity fun _ => .ofFile rfl fun _ _ _ => OpenRemark.inPlace_of_mem
  · intro rule hrule
    obtain ⟨options, -, rfl⟩ := exceptMap_eq_ok_iff.1 hrule
    exact .ofFile rfl fun _ hlines _ => LineLength.inPlace_of_mem hlines

end Registry

namespace Linter

variable {linter : Linter} {config : Config}

/-- What rules report in place stays in place when a linter runs them: it only leaves violations out. -/
theorem inPlace_of_mem (hrules : ∀ rule ∈ linter.rules, rule.StaysInPlace) {source : String}
    {snapshot : Snapshot} (h : v ∈ linter.lintSnapshot source snapshot) : v.InPlace source := by
  rw [lintSnapshot_eq_visits, withoutSuppressed_eq] at h
  rcases List.mem_append.1 (List.mem_filter.1 h).1 with h | h
  · obtain ⟨rule, hrule, hv⟩ := List.mem_flatMap.1 h
    exact (hrules rule hrule).file (linter.context source snapshot) rfl v hv
  · obtain ⟨node, -, hv⟩ := List.mem_flatMap.1 h
    obtain ⟨rule, hrule, hv⟩ := List.mem_flatMap.1 hv
    exact (hrules rule hrule).visit v hv

theorem staysInPlace_of_ofConfig (h : Linter.ofConfig config = .ok linter) :
    ∀ rule ∈ linter.rules, rule.StaysInPlace := by
  obtain ⟨rules, hrules, rfl⟩ := exceptMap_eq_ok_iff.1 h
  obtain ⟨all, hall, rfl⟩ := exceptMap_eq_ok_iff.1 hrules
  intro rule hrule
  exact Registry.forall_of_buildAll (Registry.staysInPlace_standard config) hall rule
    (List.mem_filter.1 hrule).1

/-- Whatever the configuration, the source and the snapshot are, a linter reports between two characters of the
source or at one of its ends, and the spans of its corrections lie in the source and cut no character. -/
theorem inPlace_lintSnapshot (hlinter : Linter.ofConfig config = .ok linter) (source : String)
    (snapshot : Snapshot) :
    ∀ v ∈ linter.lintSnapshot source snapshot,
      v.offset ≤ source.utf8ByteSize ∧ IsBoundary v.offset source.toList ∧
        ∀ correction, v.correction = some correction →
          ∃ piece, correction.span.slice? source = some piece := by
  intro v hv
  have hplace := inPlace_of_mem (staysInPlace_of_ofConfig hlinter) hv
  exact ⟨hplace.isBoundary.le, hplace.isBoundary, hplace.slices⟩

/-- A snapshot whose tokens and nodes are in order, with bodies that leave the source or cut a character and a
modifier at the end of all offsets. The rule on literals reports the one literal whose body has a text. -/
theorem inPlace_lintSnapshot_strewn :
    let source := "é[1 ,\n2 ] in é;"
    let strewn : Node := { kind := .array, span := ⟨14, 2⟩, body := some ⟨1, 4⟩ }
    let forest : List Node := [
      { kind := .array, span := ⟨2, 8⟩, body := some ⟨3, 6⟩ },
      { kind := .varLocal, span := ⟨10, 0⟩, attributes := [⟨.weak, ⟨Span.maxOffset, 7⟩⟩] },
      { kind := .closure, span := ⟨11, 6⟩, body := some ⟨0, Span.maxOffset⟩, children := [strewn] }]
    let tokens := TokenStream.ofList
      [⟨.identifier, ⟨0, 2⟩⟩, ⟨.keyword, ⟨11, 2⟩⟩, ⟨.identifier, ⟨14, 2⟩⟩]
    ∃ linter snapshot, Linter.ofConfig { global := { enable := ["all"] } } = .ok linter ∧
      Snapshot.assemble forest tokens source.utf8ByteSize = .ok snapshot ∧
      (linter.lintSnapshot source snapshot).map Violation.offset = [16, 4, 3, 9] ∧
      ∀ v ∈ linter.lintSnapshot source snapshot,
        v.offset ≤ source.utf8ByteSize ∧ IsBoundary v.offset source.toList ∧
          ∀ correction, v.correction = some correction →
            ∃ piece, correction.span.slice? source = some piece := by
  intro source strewn forest tokens
  have hrun : ((Linter.ofConfig { global := { enable := ["all"] } }).toOption.any fun linter =>
      (Snapshot.assemble forest tokens source.utf8ByteSize).toOption.any fun snapshot =>
        (linter.lintSnapshot source snapshot).map Violation.offset == [16, 4, 3, 9]) = true := by
    decide +kernel
  obtain ⟨linter, hlinter, hrun⟩ := exists_of_toOption_any hrun
  obtain ⟨snapshot, hsnapshot, hrun⟩ := exists_of_toOption_any hrun
  exact ⟨linter, snapshot, hlinter, hsnapshot, eq_of_beq hrun,
    inPlace_lintSnapshot hlinter source snapshot⟩

end Linter

end SourceLint
