import Mathlib.Data.List.Forall2
import SourceLint.Proofs.Text.Lines
import SourceLint.Rules.LineLength

/-!
# Which lines are too long

A line is too long when it has more characters than the smaller of the two thresholds, in whichever order they are.
It is an error exactly when it has more than the threshold for errors, and the reason names the threshold of the
severity. The characters that end a line do not count; neither does a carriage return at the end of the text, which
ends no line.

## Main results

* `LineLength.forall₂_validate`: one violation for each line that is too long, in the order of the lines.
* `LineLength.forall₂_validate_iff`: when this is so for the lines as they are written.
* `LineLength.pairwise_offset_validate`: no line is reported twice, whatever lines are passed over.
* `LineLength.exists_of_mem_lowered`: smaller thresholds keep every violation and do not lower its severity.
-/

namespace SourceLint.LineLength

/-- The number of characters that the options allow where they speak of a severity. -/
def threshold (options : LineLengthOptions) : Severity → Nat
  | .warning => options.warning.value
  | .error => options.error.value

/-- What is said of a line with a number of characters where fewer are allowed. -/
def reasonFor (allowed length : Nat) : String :=
  s!"Line should be {allowed} characters or less; currently it has {length} characters"

/-- A line with its offset has more characters than the smaller threshold. -/
def exceeds (options : LineLengthOptions) (line : Nat × List Char) : Bool :=
  min options.warning.value options.error.value < line.2.length

/-- The violation says of a line with its offset that it is too long. -/
structure Reports (options : LineLengthOptions) (line : Nat × List Char) (v : Violation) : Prop where
  rule_eq : v.rule = identifier
  offset_eq : v.offset = line.1
  error_iff : v.severity = .error ↔ options.error.value < line.2.length
  reason_eq : v.reason = reasonFor (threshold options v.severity) line.2.length
  correction_eq : v.correction = none

variable {options lowered : LineLengthOptions} {context : Context}

/-! ### One line -/

theorem reasonFor_inj {allowed length length' : Nat} :
    reasonFor allowed length = reasonFor allowed length' ↔ length = length' := by
  constructor
  · intro h
    have htext : toString length = toString length' :=
      (String.append_right_inj _).1 ((String.append_left_inj _).1 h)
    rw [Nat.toString_eq_ofList_toDigits, Nat.toString_eq_ofList_toDigits, String.ofList_inj] at htext
    rw [← Nat.ofDigitChars_ten_toDigits (n := length), htext, Nat.ofDigitChars_ten_toDigits]
  · rintro rfl
    rfl

theorem Reports.length_eq {line line' : Nat × List Char} {v : Violation} (h : Reports options line v)
    (h' : Reports options line' v) : line.2.length = line'.2.length :=
  reasonFor_inj.1 (h.reason_eq.symm.trans h'.reason_eq)

theorem verdict_eq (options : LineLengthOptions) (length : Nat) :
    verdict options length =
      if options.error.value < length then (.error, threshold options .error)
      else (.warning, threshold options .warning) := rfl

theorem violation_eq (options : LineLengthOptions) (line : Line) :
    violation options line =
      { rule := identifier
        severity := (verdict options line.text.length).1
        offset := line.span.location
        reason := reasonFor (verdict options line.text.length).2 line.text.length } := rfl

theorem reports_violation (options : LineLengthOptions) (line : Line) :
    Reports options (line.span.location, line.text.toList) (violation options line) := by
  rw [violation_eq, verdict_eq]
  by_cases herror : options.error.value < line.text.length
  · rw [if_pos herror]
    exact ⟨rfl, rfl, by simpa [String.length_toList] using herror, by rw [String.length_toList], rfl⟩
  · rw [if_neg herror]
    exact ⟨rfl, rfl, by simpa [String.length_toList] using herror, by rw [String.length_toList], rfl⟩

/-! ### All lines -/

theorem violations_eq (hcomments : options.ignoresComments = false) (hurls : options.ignoresUrls = false)
    (context : Context) :
    violations options context = (context.lines.lines.filter (isTooLong options)).map (violation options) := by
  simp [violations, isIgnored, hcomments, hurls]

/-- The rule reports each line of the text without a carriage return at its end once if it exceeds the smaller
threshold, in the order of the lines, and nothing else. -/
theorem forall₂_validate (hcomments : options.ignoresComments = false) (hurls : options.ignoresUrls = false)
    (hlines : context.lines = LineIndex.ofString context.source) :
    List.Forall₂ (Reports options)
      ((writtenLines (withoutReturn context.source.toList)).filter (exceeds options))
      ((rule options).validate context) := by
  have hlong : exceeds options ∘ (fun line : Line => (line.span.location, line.text.toList)) =
      isTooLong options := by
    funext line
    rw [Function.comp_apply, exceeds, isTooLong, String.length_toList]
  have hvalidate : (rule options).validate context = violations options context := rfl
  rw [hvalidate, violations_eq hcomments hurls, hlines, ← LineIndex.map_written_lines, List.filter_map, hlong,
    List.forall₂_map_left_iff, List.forall₂_map_right_iff, List.forall₂_same]
  intro line _
  exact reports_violation options line

/-- The same violations cannot be about two texts whose last lines have different numbers of characters, when the
longer one is too long. -/
theorem exceeds_eq_false_of_forall₂ {lines : List (Nat × List Char)} {last shorter : Nat × List Char}
    {found : List Violation} (hlength : shorter.2.length < last.2.length)
    (hlast : List.Forall₂ (Reports options) ((lines ++ [last]).filter (exceeds options)) found)
    (hshorter : List.Forall₂ (Reports options) ((lines ++ [shorter]).filter (exceeds options)) found) :
    exceeds options last = false := by
  rw [← Bool.not_eq_true]
  intro hlong
  rw [List.filter_append, List.filter_cons_of_pos hlong, List.filter_nil] at hlast
  rw [List.filter_append] at hshorter
  cases hshort : exceeds options shorter with
  | false =>
      rw [List.filter_cons_of_neg (by simp [hshort]), List.filter_nil] at hshorter
      have hcount := hlast.length_eq.trans hshorter.length_eq.symm
      simp at hcount
  | true =>
      rw [List.filter_cons_of_pos hshort, List.filter_nil] at hshorter
      rw [← List.forall₂_reverse_iff, List.reverse_append, List.reverse_singleton, List.singleton_append,
        List.forall₂_cons_left_iff] at hlast hshorter
      obtain ⟨v, earlier, hv, -, hfound⟩ := hlast
      obtain ⟨v', earlier', hv', -, hfound'⟩ := hshorter
      obtain ⟨rfl, -⟩ := List.cons.inj (hfound.symm.trans hfound')
      exact absurd (hv'.length_eq hv) (Nat.ne_of_lt hlength)

/-- The violations are about the lines as they are written exactly when the last line is not too long with a carriage
return that ends the text. -/
theorem forall₂_validate_iff (hcomments : options.ignoresComments = false)
    (hurls : options.ignoresUrls = false) (hlines : context.lines = LineIndex.ofString context.source) :
    List.Forall₂ (Reports options) ((writtenLines context.source.toList).filter (exceeds options))
        ((rule options).validate context) ↔
      (context.source.toList.getLast? = some '\r' →
        ∀ last ∈ (writtenLines context.source.toList).getLast?, exceeds options last = false) := by
  have hvalidate := forall₂_validate hcomments hurls hlines
  obtain ⟨front, start, last, hwritten, hwithout, hreturn⟩ := exists_lastWritten 0 context.source.toList
  have hcut := withoutReturn_append last
  rw [hreturn, returnOf] at hcut
  rw [writtenLines, hwithout] at hvalidate
  rw [writtenLines, hwritten]
  by_cases hends : context.source.toList.getLast? = some '\r'
  · rw [if_pos hends] at hcut
    have hlength : (withoutReturn last).length < last.length := by
      rw [← congrArg List.length hcut, List.length_append]
      exact Nat.lt_succ_self _
    simp only [hends, List.getLast?_concat, Option.mem_some_iff, forall_const, forall_eq']
    constructor
    · intro hfound
      exact exceeds_eq_false_of_forall₂ hlength hfound hvalidate
    · intro hshort
      have hshorter : exceeds options (start, withoutReturn last) = false := by
        simp only [exceeds, decide_eq_false_iff_not] at hshort ⊢
        omega
      rw [List.filter_append, List.filter_cons_of_neg (by simp [hshorter])] at hvalidate
      rwa [List.filter_append, List.filter_cons_of_neg (by simp [hshort])]
  · rw [if_neg hends, List.append_nil] at hcut
    rw [hcut] at hvalidate
    exact iff_of_true hvalidate fun h => absurd h hends

/-! ### A carriage return at the end -/

/-- The rule says nothing of a line that is too long only with the carriage return behind it. -/
theorem validate_return (snapshot : Snapshot) :
    (rule (.ofCounts 2 5)).validate { source := "ab\r", snapshot } = [] ∧
      (writtenLines "ab\r".toList).filter (exceeds (.ofCounts 2 5)) = [(0, ['a', 'b', '\r'])] := by
  have hvalidate : List.Forall₂ (Reports (.ofCounts 2 5)) _
      ((rule (.ofCounts 2 5)).validate { source := "ab\r", snapshot }) := forall₂_validate rfl rfl rfl
  have hnone : (writtenLines (withoutReturn "ab\r".toList)).filter (exceeds (.ofCounts 2 5)) = [] := by
    decide +kernel
  rw [hnone, List.forall₂_nil_left_iff] at hvalidate
  exact ⟨hvalidate, by decide +kernel⟩

/-! ### The order of the violations -/

theorem map_offset_violation (options : LineLengthOptions) (lines : List Line) :
    (lines.map (violation options)).map Violation.offset = lines.map fun line => line.span.location := by
  rw [List.map_map]
  rfl

/-- Whatever the options are, each line is reported at most once, and the lines before it come before it. -/
theorem pairwise_offset_validate (options : LineLengthOptions)
    (hlines : context.lines = LineIndex.ofString context.source) :
    (((rule options).validate context).map Violation.offset).Pairwise (· < ·) := by
  change ((violations options context).map Violation.offset).Pairwise (· < ·)
  have hstarts := LineIndex.pairwise_location_lines context.source
  rw [← hlines] at hstarts
  rw [violations, map_offset_violation]
  exact hstarts.sublist (List.filter_sublist.map _)

/-! ### Smaller thresholds -/

theorem isIgnored_congr (hcomments : lowered.ignoresComments = options.ignoresComments)
    (hurls : lowered.ignoresUrls = options.ignoresUrls) (context : Context) (line : Line) :
    isIgnored lowered context line = isIgnored options context line := by
  rw [isIgnored, isIgnored, hcomments, hurls]

theorem error_violation_iff (options : LineLengthOptions) (line : Line) :
    (violation options line).severity = .error ↔ options.error.value < line.text.length := by
  rw [(reports_violation options line).error_iff, String.length_toList]

/-- Smaller thresholds, with the same lines passed over, keep every violation in its place and do not make an error a
warning. -/
theorem exists_of_mem_lowered (hwarning : lowered.warning.value ≤ options.warning.value)
    (herror : lowered.error.value ≤ options.error.value)
    (hcomments : lowered.ignoresComments = options.ignoresComments)
    (hurls : lowered.ignoresUrls = options.ignoresUrls) :
    (((rule options).validate context).map Violation.offset).Sublist
        (((rule lowered).validate context).map Violation.offset) ∧
      ∀ v ∈ (rule options).validate context, ∃ v' ∈ (rule lowered).validate context,
        v'.offset = v.offset ∧ (v.severity = .error → v'.severity = .error) := by
  have hlong : ∀ line, (isTooLong options line && !isIgnored options context line) = true →
      (isTooLong lowered line && !isIgnored lowered context line) = true := by
    intro line hline
    rw [isIgnored_congr hcomments hurls]
    simp only [Bool.and_eq_true, isTooLong, decide_eq_true_eq] at hline ⊢
    exact ⟨by omega, hline.2⟩
  constructor
  · change List.Sublist ((violations options context).map _) ((violations lowered context).map _)
    rw [violations, violations, map_offset_violation, map_offset_violation]
    exact (List.monotone_filter_right _ hlong).map _
  · intro v hv
    obtain ⟨line, hline, rfl⟩ := List.mem_map.1 hv
    obtain ⟨hline, hkept⟩ := List.mem_filter.1 hline
    refine ⟨violation lowered line,
      List.mem_map_of_mem (List.mem_filter.2 ⟨hline, hlong line hkept⟩), rfl, fun hseverity => ?_⟩
    rw [error_violation_iff] at hseverity ⊢
    exact Nat.lt_of_le_of_lt herror hseverity

end SourceLint.LineLength
