import SourceLint.Proofs.Sorting
import SourceLint.Proofs.Text.Positions
import SourceLint.Report

/-!
# What the report on a file says

A report is made by finding the place of each violation and then sorting by offset. Sorting moves no violation past
another one at the same offset, and a place depends on the offset only. So the report reads as if the violations had
been sorted first, and since later offsets have no earlier places, the places in it ascend as the offsets do.

## Main results

* `FileReport.isReport_ofViolations`: what a report says of any violations, also of those past the end of the text.
* `Linter.lintFile_spec`: with that, a file has the report on what linting its text gives, or fails as its text does.
-/

namespace SourceLint

/-- What a report says of one violation of a text: everything but the edit, and the line and column of its offset. -/
structure ReportedViolation.Tells (path source : String) (violation : Violation) (reported : ReportedViolation) :
    Prop where
  rule_eq : reported.rule = violation.rule
  severity_eq : reported.severity = violation.severity
  path_eq : reported.path = path
  offset_eq : reported.offset = violation.offset
  reason_eq : reported.reason = violation.reason
  position : ∃ start stop text piece,
    IsPosition source violation.offset reported.line reported.column start stop text piece

theorem ReportedViolation.tells_ofViolation (path source : String) (violation : Violation) :
    Tells path source violation (ofViolation path (.ofString source) violation) where
  rule_eq := rfl
  severity_eq := rfl
  path_eq := rfl
  offset_eq := rfl
  reason_eq := rfl
  position := LineIndex.isPosition_position source violation.offset

/-- A report on some violations of a text. It tells of each of them once, in the order `sorted`: their offsets ascend,
those at one offset come as they came, and lines and columns ascend with the offsets. -/
structure FileReport.IsReport (path source : String) (violations sorted : List Violation) (report : FileReport) :
    Prop where
  path_eq : report.path = path
  perm : sorted.Perm violations
  ascending : sorted.Pairwise fun a b => a.offset ≤ b.offset
  stable : ∀ offset, sorted.filter (fun v => v.offset == offset) = violations.filter fun v => v.offset == offset
  tells : List.Forall₂ (ReportedViolation.Tells path source) sorted report.violations
  advancing : report.violations.Pairwise fun a b => toLex (a.line, a.column) ≤ toLex (b.line, b.column)

namespace FileReport

/-- The places may be found before the violations are sorted or behind that. -/
theorem violations_ofViolations (path source : String) (violations : List Violation) :
    (ofViolations path source violations).violations =
      (sortBy Violation.offset violations).map (ReportedViolation.ofViolation path (.ofString source)) :=
  sortBy_map ReportedViolation.offset _ violations

theorem isReport_ofViolations (path source : String) (violations : List Violation) :
    IsReport path source violations (sortBy Violation.offset violations)
      (ofViolations path source violations) where
  path_eq := rfl
  perm := sortBy_perm Violation.offset violations
  ascending := pairwise_sortBy Violation.offset violations
  stable := filter_sortBy Violation.offset violations
  tells := by
    rw [violations_ofViolations, List.forall₂_map_right_iff, List.forall₂_same]
    exact fun violation _ => ReportedViolation.tells_ofViolation path source violation
  advancing := by
    rw [violations_ofViolations, List.pairwise_map]
    exact (pairwise_sortBy Violation.offset violations).imp fun hle => LineIndex.position_mono source hle

end FileReport

namespace Linter

/-- Linting a text fails exactly when the text cannot be read, and with the same error. -/
theorem lint_eq_error_iff {linter : Linter} {source : String} {error : SyntaxError} :
    linter.lint source = .error error ↔ linter.provider source = .error error := by
  rw [lint]
  cases linter.provider source <;> simp [Except.map]

/-- Linting a file is linting its text and reporting on what comes out. -/
theorem lintFile_eq (linter : Linter) (file : SourceFile) :
    linter.lintFile file =
      match linter.lint file.content with
      | .ok violations => .linted (.ofViolations file.path file.content violations)
      | .error error => .failed file.path error := by
  rw [lintFile, lint]
  cases linter.provider file.content <;> rfl

theorem lintFile_eq_failed_iff {linter : Linter} {file : SourceFile} {path : String} {error : SyntaxError} :
    linter.lintFile file = .failed path error ↔ path = file.path ∧ linter.lint file.content = .error error := by
  rw [lintFile_eq]
  cases linter.lint file.content with
  | error found => simp [eq_comm]
  | ok violations => simp

theorem lintFile_eq_linted_iff {linter : Linter} {file : SourceFile} {report : FileReport} :
    linter.lintFile file = .linted report ↔
      ∃ violations, linter.lint file.content = .ok violations ∧
        report = .ofViolations file.path file.content violations := by
  rw [lintFile_eq]
  cases linter.lint file.content with
  | error found => simp
  | ok violations => simp [eq_comm]

/-- Only a batch is cancelled. -/
theorem lintFile_ne_cancelled (linter : Linter) (file : SourceFile) (path : String) :
    linter.lintFile file ≠ .cancelled path := by
  rw [lintFile_eq]
  cases linter.lint file.content <;> simp

/-- A report tells of every violation once, by ascending offsets with those at one offset as they came, and at
ascending places. A file fails exactly when linting its text does, with the error of reading the text, and otherwise
it has the report on exactly what linting its text gives. -/
theorem lintFile_spec :
    (∀ path source violations, ∃ sorted,
      FileReport.IsReport path source violations sorted (.ofViolations path source violations)) ∧
    ∀ (linter : Linter) (file : SourceFile),
      (∀ path error, linter.lintFile file = .failed path error ↔
        path = file.path ∧ linter.lint file.content = .error error) ∧
      (∀ error, linter.lint file.content = .error error ↔ linter.provider file.content = .error error) ∧
      (∀ report, linter.lintFile file = .linted report ↔
        ∃ violations, linter.lint file.content = .ok violations ∧
          report = .ofViolations file.path file.content violations) ∧
      ∀ path, linter.lintFile file ≠ .cancelled path := by
  constructor
  · intro path source violations
    exact ⟨_, FileReport.isReport_ofViolations path source violations⟩
  · intro linter file
    exact ⟨fun path error => lintFile_eq_failed_iff, fun error => lint_eq_error_iff,
      fun report => lintFile_eq_linted_iff, lintFile_ne_cancelled linter file⟩

/-- Three violations of a text of two lines, found out of order: two at one offset, and one past the end. -/
example :
    ((FileReport.ofViolations "a.swift" "ç;\nx" [⟨"b", .warning, 9, "", none⟩, ⟨"c", .error, 2, "", none⟩,
      ⟨"a", .warning, 2, "", none⟩]).violations.map fun v => (v.rule, v.offset, v.line, v.column)) =
      [("c", 2, 1, 2), ("a", 2, 1, 2), ("b", 9, 2, 2)] := by
  decide +kernel

end Linter

end SourceLint
