/-!
# Severities and thresholds

What a rule can be told about its violations: how serious they are, and from which count on they
count as such.
-/

namespace SourceLint

/-- How serious a violation is. -/
inductive Severity where
  | warning
  | error
deriving DecidableEq, Repr, Inhabited

namespace Severity

def name : Severity → String
  | warning => "warning"
  | error => "error"

def ofName? : String → Option Severity
  | "warning" => some warning
  | "error" => some error
  | _ => none

@[simp] theorem ofName?_name (s : Severity) : ofName? s.name = some s := by cases s <;> rfl

end Severity

/-- A count of at least one. -/
structure Threshold where
  value : Nat
  pos : 1 ≤ value := by decide
deriving DecidableEq, Repr

namespace Threshold

/-- The length of a line from which on it is worth a warning, where none is given. -/
def standardWarning : Threshold := ⟨120, by decide⟩

/-- The length of a line from which on it is an error, where none is given. -/
def standardError : Threshold := ⟨200, by decide⟩

/-- A count that is no threshold, since it is zero. -/
structure TooSmall where
  value : Nat
deriving DecidableEq, Repr

def TooSmall.message (e : TooSmall) : String := "value must be at least 1, got " ++ toString e.value

def ofNat (n : Nat) : Except TooSmall Threshold :=
  if h : 1 ≤ n then .ok ⟨n, h⟩ else .error ⟨n⟩

end Threshold

end SourceLint
