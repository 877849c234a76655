import SourceLint.Proofs.LineEndings.FileRules

/-!
# Rules on nodes with carriage returns

The rules on captures and on loops report the same with carriage returns. The rule on the brackets of literals does not
take a carriage return for part of the end of a line: it also reports the opening bracket of each literal on several
lines, even when nothing but the end of the line follows it.
-/

namespace SourceLint

/-- A text without newlines and carriage returns stands under a span with carriage returns when it does without. -/
theorem returned_eq_iff {text piece : String} (hnewline : '\n' ∉ piece.toList) :
    returned text = piece ↔ text = piece := by
  have hplain : ∀ text : String, '\n' ∉ text.toList → returned text = text := by
    intro text htext
    rw [returned, withReturns_eq_self htext, String.ofList_toList]
  constructor
  · rintro rfl
    rw [toList_returned, mem_withReturns_iff (by decide)] at hnewline
    exact (hplain text hnewline).symm
  · rintro rfl
    exact hplain text hnewline

theorem map_returned_beq {text? : Option String} {piece : String} (hnewline : '\n' ∉ piece.toList) :
    (text?.map returned == some piece) = (text? == some piece) := by
  cases text? with
  | none => rfl
  | some text =>
      rw [Option.map_some, Bool.eq_iff_iff, beq_iff_eq, beq_iff_eq, Option.some.injEq, Option.some.injEq,
        returned_eq_iff hnewline]

/-! ### Captures -/

namespace UnownedVariableCapture

variable {context context' : Context}

theorem captureSpan?_returned (h : Context.Returned context context') {body : Span}
    (hbody : context.EndsNoRemark body.stop) :
    captureSpan? context' ((Relocation.returns context.source.toList).span body) =
      (captureSpan? context body).map (Relocation.returns context.source.toList).span := by
  have hfound := forall₂_find? (h.tokensIn hbody)
    (p := fun token => token.kind == .keyword && token.text? context.source == some "in")
    (q := fun token => token.kind == .keyword && token.text? context'.source == some "in") fun t t' htoken => by
      rw [htoken.kind]
      cases hkind : t.kind with
      | keyword => rw [h.source, htoken.text?_eq (by simp [hkind]), map_returned_beq (by decide)]
      | _ => rfl
  rw [captureSpan?, captureSpan?, Option.map_map]
  refine map_eq_of_rel hfound fun t t' htoken => ?_
  rw [Function.comp, Relocation.span_ofBounds, Relocation.location_span, htoken.location, Relocation.offset_returns,
    Relocation.offset_returns]

theorem isUnowned_returned (h : Context.Returned context context') (modifier : Attribute) :
    isUnowned context' ((Relocation.returns context.source.toList).modifier modifier) =
      isUnowned context modifier := by
  rw [isUnowned, isUnowned, Relocation.modifier, h.contents?, map_returned_beq (by decide)]

theorem unownedWithin?_returned (h : Context.Returned context context') (captures : Span) (node : Node) :
    unownedWithin? context' ((Relocation.returns context.source.toList).span captures)
        ((Relocation.returns context.source.toList).node node) =
      (unownedWithin? context captures node).map (Relocation.returns context.source.toList).modifier := by
  have hattributes : ((Relocation.returns context.source.toList).node node).attributes =
      node.attributes.map (Relocation.returns context.source.toList).modifier := by rw [Relocation.node_eq]
  have htest : isUnowned context' ∘ (Relocation.returns context.source.toList).modifier = isUnowned context :=
    funext fun modifier => isUnowned_returned h modifier
  rw [unownedWithin?, unownedWithin?, Relocation.kind_node, Relocation.span_node, Relocation.covers_span_returns,
    hattributes, List.find?_map, htest]
  split
  · rfl
  · rfl

theorem violations_returned (severity : Severity) (h : Context.Returned context context') {node : Node}
    (hnode : node ∈ Node.listingAll context.snapshot.forest) :
    List.Forall₂ (Violation.Returned context.source.toList) (violations severity context node)
      (violations severity context' ((Relocation.returns context.source.toList).node node)) := by
  have hbody : ((Relocation.returns context.source.toList).node node).body.bind (captureSpan? context') =
      (node.body.bind (captureSpan? context)).map (Relocation.returns context.source.toList).span := by
    rw [Relocation.body_node]
    cases hfound : node.body with
    | none => rfl
    | some body => exact captureSpan?_returned h ((h.endsNoRemark_of_mem hnode).2 body hfound)
  rw [violations, violations, hbody]
  cases node.body.bind (captureSpan? context) with
  | none => exact .nil
  | some captures =>
      have hfound : (Node.levels context'.snapshot.forest).filterMap
            (unownedWithin? context' ((Relocation.returns context.source.toList).span captures)) =
          ((Node.levels context.snapshot.forest).filterMap (unownedWithin? context captures)).map
            (Relocation.returns context.source.toList).modifier := by
        rw [h.snapshot.forest, Relocation.levels_nodes, List.filterMap_map, List.map_filterMap]
        exact List.filterMap_congr fun node _ => unownedWithin?_returned h captures node
      dsimp only [Option.map_some]
      rw [hfound, List.map_map, List.forall₂_map_left_iff, List.forall₂_map_right_iff, List.forall₂_same]
      exact fun modifier _ => ⟨rfl, rfl, rfl, rfl⟩

end UnownedVariableCapture

/-! ### Loops -/

/-- A text ends with a pattern without newlines and carriage returns, or does not, as it does with carriage returns. -/
theorem isSuffixOf_withReturns {pattern : List Char} (hnewline : '\n' ∉ pattern) (hreturn : '\r' ∉ pattern)
    (cs : List Char) : pattern.isSuffixOf (withReturns cs) = pattern.isSuffixOf cs := by
  have hbefore : ∀ pattern before : List Char, '\n' ∉ pattern → '\r' ∉ pattern →
      pattern.isPrefixOf (returnedBefore before) = pattern.isPrefixOf before := by
    intro pattern
    induction pattern with
    | nil => exact fun _ _ _ => rfl
    | cons d pattern ih =>
        intro before hnewline hreturn
        rw [List.mem_cons, not_or] at hnewline hreturn
        cases before with
        | nil => rfl
        | cons c before =>
            by_cases hc : c = '\n'
            · have hd : (d == '\n') = false := beq_false_of_ne (Ne.symm hnewline.1)
              simp only [hc, returnedBefore_newline, List.isPrefixOf, hd, Bool.false_and]
            · simp only [returnedBefore_cons hc, List.isPrefixOf, ih before hnewline.2 hreturn.2]
  have hreverse := hbefore pattern.reverse cs.reverse (by simpa using hnewline) (by simpa using hreturn)
  rwa [returnedBefore, List.reverse_reverse] at hreverse

namespace UnusedEnumerated

variable {context context' : Context}

theorem isEnumeratedCall_returned (cs : List Char) (node : Node) :
    isEnumeratedCall ((Relocation.returns cs).node node) = isEnumeratedCall node := by
  have hname : ((Relocation.returns cs).node node).name = node.name.map returned := by
    rw [Relocation.node_eq]
    rfl
  rw [isEnumeratedCall, isEnumeratedCall, Relocation.kind_node, hname]
  cases node.name with
  | none => rfl
  | some name =>
      rw [Option.map_some, Option.any_some, Option.any_some, toList_returned,
        isSuffixOf_withReturns (by decide) (by decide)]

/-- The text of a dropped value is its one byte. -/
theorem isDropped_eq (context : Context) (token : Token) :
    isDropped context token = (token.kind == .keyword && token.text? context.source == some "_") := by
  rw [isDropped]
  cases htext : token.text? context.source == some "_" with
  | false => simp
  | true =>
      have hslice : token.span.slice? context.source = some "_" := eq_of_beq htext
      rw [Span.slice?_eq, Option.map_eq_some_iff] at hslice
      obtain ⟨piece, hpiece, hofList⟩ := hslice
      obtain ⟨-, -, -, -, hlength⟩ := Span.chars?_eq_some_iff.1 hpiece
      have hsize : token.span.length = 1 := by
        rw [← hlength, ← String.toList_ofList (l := piece), hofList]
        rfl
      simp [hsize]

theorem isDropped_returned (h : Context.Returned context context') {t t' : Token}
    (htoken : Token.Returned context.source.toList t t') : isDropped context' t' = isDropped context t := by
  rw [isDropped_eq, isDropped_eq, htoken.kind]
  cases hkind : t.kind with
  | keyword => rw [h.source, htoken.text?_eq (by simp [hkind]), map_returned_beq (by decide)]
  | _ => rfl

theorem finding?_returned (h : Context.Returned context context') {first last first' last' : Token}
    (hfirst : Token.Returned context.source.toList first first')
    (hlast : Token.Returned context.source.toList last last') :
    Option.Rel (fun found found' => Token.Returned context.source.toList found.1 found'.1 ∧ found'.2 = found.2)
      (finding? context first last) (finding? context' first' last') := by
  rw [finding?, finding?, isDropped_returned h hfirst, isDropped_returned h hlast]
  cases isDropped context first with
  | true =>
      cases isDropped context last with
      | true => exact .none
      | false => exact .some ⟨hfirst, rfl⟩
  | false =>
      cases isDropped context last with
      | true => exact .some ⟨hlast, rfl⟩
      | false => exact .none

theorem violations_returned (severity : Severity) (h : Context.Returned context context') {node : Node}
    (hnode : node ∈ Node.listingAll context.snapshot.forest) :
    List.Forall₂ (Violation.Returned context.source.toList) (violations severity context node)
      (violations severity context' ((Relocation.returns context.source.toList).node node)) := by
  have hcalls : ((Relocation.returns context.source.toList).node node).children.any isEnumeratedCall =
      node.children.any isEnumeratedCall := by
    rw [Relocation.children_node, Relocation.nodes_eq_map, List.any_map]
    congr 1
    exact funext fun child => isEnumeratedCall_returned _ child
  have hpattern : ((Relocation.returns context.source.toList).node node).elementSpan? .id =
      (node.elementSpan? .id).map (Relocation.returns context.source.toList).span := by
    rw [Node.elementSpan?, Node.elementSpan?, Relocation.node_eq]
    dsimp only
    rw [List.find?_map, Option.map_map, Option.map_map]
    rfl
  rw [violations, violations, hcalls, hpattern]
  split
  · cases hfound : node.elementSpan? .id with
    | none => exact .nil
    | some pattern =>
        have hends : context.EndsNoRemark pattern.stop := by
          rw [Node.elementSpan?, Option.map_eq_some_iff] at hfound
          obtain ⟨e, he, rfl⟩ := hfound
          exact (h.endsNoRemark_of_mem hnode).1 e (List.mem_of_find?_eq_some he)
        have htokens := h.tokensIn hends
        simp only [Option.map_some]
        generalize context.tokensIn pattern = tokens at htokens
        generalize context'.tokensIn ((Relocation.returns context.source.toList).span pattern) = tokens' at htokens
        cases htokens with
        | nil => exact .nil
        | @cons first first' _ _ hfirst htokens =>
            cases htokens with
            | nil => exact .nil
            | @cons last last' _ _ hlast htokens =>
                cases htokens with
                | cons _ _ => exact .nil
                | nil =>
                    have hfinding := finding?_returned h hfirst hlast
                    dsimp only
                    rw [Option.toList_map, Option.toList_map, List.forall₂_map_left_iff, List.forall₂_map_right_iff]
                    exact (forall₂_toList hfinding).imp fun _ _ hfound =>
                      ⟨rfl, rfl, hfound.1.location, hfound.2⟩
  · exact .nil

end UnusedEnumerated

/-! ### Brackets of literals -/

namespace LiteralBrackets

/-- What the rule says about an opening bracket. -/
def openingReason : String := "Multiline literal should have its opening bracket followed by a newline"

/-- Nothing but spacing stands between the offset and a carriage return with a newline. -/
def endsLineAt (source : String) (offset : Nat) : Bool :=
  (dropBytes? offset source.toList).any fun cs => ['\r', '\n'].isPrefixOf (cs.dropWhile isSpacing)

/-- The report is about the opening bracket of a literal which does end its line. -/
def isFalseAlarm (source rule reason : String) (offset : Nat) : Bool :=
  rule == identifier && reason == openingReason && endsLineAt source offset

theorem isFalseAlarm_of_ne {source rule reason : String} (hrule : rule ≠ identifier) (offset : Nat) :
    isFalseAlarm source rule reason offset = false := by
  rw [isFalseAlarm, beq_false_of_ne hrule, Bool.false_and, Bool.false_and]

/-- The carriage return before the first newline stands behind the opening bracket, and is no spacing. -/
theorem startsWithNewline_withReturns (cs : List Char) : startsWithNewline (withReturns cs) = false := by
  rw [startsWithNewline, dropWhile_withReturns rfl rfl]
  cases cs.dropWhile isSpacing with
  | nil => rfl
  | cons c rest =>
      by_cases hc : c = '\n'
      · rw [hc]
        rfl
      · rw [withReturns_cons hc, List.head?_cons, beq_false_of_ne]
        simpa using hc

theorem endsWithNewline_withReturns (cs : List Char) : endsWithNewline (withReturns cs) = endsWithNewline cs := by
  have hbefore : (withReturns cs).reverse = returnedBefore cs.reverse := by
    rw [returnedBefore, List.reverse_reverse]
  rw [endsWithNewline, endsWithNewline, startsWithNewline, startsWithNewline, hbefore,
    dropWhile_returnedBefore rfl, head?_returnedBefore]

/-- An opening bracket ends its line with carriage returns when it does so without them. -/
theorem endsLineAt_returned {source : String} {front text back : List Char} (hreturn : '\r' ∉ source.toList)
    (hsource : source.toList = front ++ text ++ back) (htext : '\n' ∈ text) :
    endsLineAt (returned source) (returnedOffset source.toList (byteLength front)) = startsWithNewline text := by
  obtain ⟨gap, rest, rfl, hgap, hrest⟩ := exists_span isSpacing text
  have hplain : '\n' ∉ gap := fun hmem => Bool.noConfusion (hgap '\n' hmem)
  cases rest with
  | nil =>
      rw [List.append_nil] at htext
      exact absurd htext hplain
  | cons c rest =>
      have hc : c ≠ '\r' := by
        rintro rfl
        exact hreturn (by simp [hsource])
      have hparts : source.toList = front ++ (gap ++ c :: (rest ++ back)) := by simp [hsource]
      rw [endsLineAt, toList_returned, hparts, returnedOffset_byteLength, withReturns_append, dropBytes?_append,
        Option.any_some, dropWhile_withReturns rfl rfl, startsWithNewline, dropWhile_span hgap hrest,
        dropWhile_span hgap (by simpa using hrest), List.head?_cons]
      by_cases hnewline : c = '\n'
      · rw [hnewline]
        rfl
      · have hother : (some c == some '\n') = false := beq_false_of_ne (by simpa using hnewline)
        have hreturn : ('\r' == c) = false := beq_false_of_ne (Ne.symm hc)
        rw [withReturns_cons hnewline, hother, List.isPrefixOf, hreturn, Bool.false_and]

theorem filter_violation (severity : Severity) (source reason : String) (offset : Nat) :
    ([violation severity offset reason].filter fun v => !isFalseAlarm source v.rule v.reason v.offset) =
      if isFalseAlarm source identifier reason offset then [] else [violation severity offset reason] := by
  cases halarm : isFalseAlarm source identifier reason offset with
  | true => exact List.filter_cons_of_neg (by simp [violation, halarm])
  | false => exact List.filter_cons_of_pos (by simp [violation, halarm])

/-- The opening bracket of a literal on several lines is reported once more with carriage returns, when it does end its
line; all else is reported alike. -/
theorem violationsIn_returned (severity : Severity) {source : String} {body : Span} {front text back : List Char}
    (hreturn : '\r' ∉ source.toList) (hsource : source.toList = front ++ text ++ back)
    (hlocation : byteLength front = body.location) :
    List.Forall₂ (Violation.Returned source.toList) (violationsIn severity body text)
      ((violationsIn severity ((Relocation.returns source.toList).span body) (withReturns text)).filter fun v =>
        !isFalseAlarm (returned source) v.rule v.reason v.offset) := by
  have hnewline : (withReturns text).contains '\n' = text.contains '\n' := by
    rw [Bool.eq_iff_iff, List.contains_iff_mem, List.contains_iff_mem, mem_withReturns_iff (by decide)]
  rw [violationsIn, violationsIn, startsWithNewline_withReturns, endsWithNewline_withReturns, hnewline]
  cases hmultiline : text.contains '\n' with
  | false => exact .nil
  | true =>
      have hends := endsLineAt_returned hreturn hsource (List.contains_iff_mem.1 hmultiline)
      have hopening : isFalseAlarm (returned source) identifier openingReason
          ((Relocation.returns source.toList).span body).location = startsWithNewline text := by
        rw [Relocation.location_span, Relocation.offset_returns, ← hlocation, isFalseAlarm, hends, BEq.rfl, BEq.rfl,
          Bool.true_and, Bool.true_and]
      have hclosing : ∀ offset, isFalseAlarm (returned source) identifier
          "Multiline literal should have its closing bracket on a new line" offset = false := by
        intro offset
        have hother : ("Multiline literal should have its closing bracket on a new line" == openingReason) = false := by
          decide
        rw [isFalseAlarm, hother, Bool.and_false, Bool.false_and]
      rw [openingReason] at hopening
      simp only [if_true, Bool.false_eq_true, if_false, List.filter_append, filter_violation, hopening]
      refine List.rel_append ?_ ?_
      · cases startsWithNewline text with
        | true => exact .nil
        | false => exact .cons ⟨rfl, rfl, rfl, rfl⟩ .nil
      · cases endsWithNewline text with
        | true => exact .nil
        | false =>
            simp only [Bool.false_eq_true, if_false, filter_violation, hclosing]
            exact .cons ⟨rfl, rfl, Relocation.stop_span _ body, rfl⟩ .nil

theorem violations_returned (severity : Severity) {context context' : Context} (h : Context.Returned context context')
    (node : Node) :
    List.Forall₂ (Violation.Returned context.source.toList) (violations severity context node)
      ((violations severity context' ((Relocation.returns context.source.toList).node node)).filter fun v =>
        !isFalseAlarm context'.source v.rule v.reason v.offset) := by
  rw [violations, violations, Relocation.body_node]
  cases node.body with
  | none => exact .nil
  | some body =>
      simp only [Option.map_some, h.contents?]
      cases htext : context.contents? body with
      | none => exact .nil
      | some text =>
          obtain ⟨piece, hpiece, rfl⟩ : ∃ piece, body.chars? context.source.toList = some piece ∧
              String.ofList piece = text := by
            rwa [Context.contents?, Span.slice?_eq, Option.map_eq_some_iff] at htext
          obtain ⟨front, back, hsource, hlocation, -⟩ := Span.chars?_eq_some_iff.1 hpiece
          simp only [Option.map_some, toList_returned, String.toList_ofList, h.source]
          exact violationsIn_returned severity h.plain hsource hlocation

end LiteralBrackets

end SourceLint
