import SourceLint.Linter
import SourceLint.Sorting

/-!
# Reports on files

The report on a file gives its violations with lines and columns, in ascending order of their offsets.
Files are linted one by one or in a batch; a batch answers in the order of its files, and whether its
files are shared out among threads does not change the answers.
-/

namespace SourceLint

/-- A file that is to be linted. -/
structure SourceFile where
  path : String
  content : String
deriving DecidableEq, Repr

/-- A violation with its place in a file. -/
structure ReportedViolation where
  rule : String
  severity : Severity
  path : String
  offset : Nat
  line : Nat
  column : Nat
  reason : String
deriving DecidableEq, Repr

/-- A violation of a file with the given lines. -/
def ReportedViolation.ofViolation (path : String) (lines : LineIndex) (v : Violation) :
    ReportedViolation where
  rule := v.rule
  severity := v.severity
  path := path
  offset := v.offset
  line := (lines.position v.offset).1
  column := (lines.position v.offset).2
  reason := v.reason

/-- The violations of one file in ascending order of their offsets. -/
structure FileReport where
  path : String
  violations : List ReportedViolation
deriving DecidableEq, Repr

/-- The report on some violations. Those at one offset keep their order. -/
def FileReport.ofViolations (path source : String) (violations : List Violation) : FileReport where
  path := path
  violations :=
    let lines := LineIndex.ofString source
    sortBy ReportedViolation.offset (violations.map (ReportedViolation.ofViolation path lines))

/-- What came of linting one file. -/
inductive FileOutcome where
  | linted (report : FileReport)
  | failed (path : String) (error : SyntaxError)
  | cancelled (path : String)
deriving DecidableEq, Repr

def Linter.lintFile (linter : Linter) (file : SourceFile) : FileOutcome :=
  match linter.provider file.content with
  | .ok snapshot =>
    .linted (.ofViolations file.path file.content (linter.lintSnapshot file.content snapshot))
  | .error error => .failed file.path error

/-- How a batch of files is shared out among threads. -/
structure BatchOptions where
  enabled : Bool := true
  /-- The number of threads, or none for as many as are available. -/
  threadCount : Option Nat := none
  minimumFileCount : Nat := 2
deriving DecidableEq, Repr

/-- It is worthwhile to share out the files. -/
def BatchOptions.isParallel (options : BatchOptions) (available : Nat) (files : List SourceFile) :
    Bool :=
  options.enabled && options.minimumFileCount ≤ files.length &&
    2 ≤ options.threadCount.getD available

/-- Lint some files, each unless the batch is cancelled before its turn. -/
def Linter.lintFiles (linter : Linter) (isCancelled : SourceFile → Bool) (files : List SourceFile) :
    List FileOutcome :=
  files.map fun file => if isCancelled file then .cancelled file.path else linter.lintFile file

end SourceLint
