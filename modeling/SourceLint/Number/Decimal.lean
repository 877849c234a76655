/-!
# Decimal numerals

Natural numbers are written with the digits `0` to `9` and without leading zeros; the reader also
takes leading zeros. Main statement: reading a written number gives it back
(`readDecimal?_decimal`).
-/

namespace SourceLint

/-- The digit with the given value below ten. -/
def digitChar (n : Nat) : Char := Char.ofNat ('0'.toNat + n)

/-- The value of a digit. -/
def digitValue (c : Char) : Nat := c.toNat - '0'.toNat

/-- A number as a numeral. -/
def decimal (n : Nat) : List Char :=
  if n < 10 then [digitChar n] else decimal (n / 10) ++ [digitChar (n % 10)]
termination_by n

/-- Add a digit behind the digits of a number. -/
def appendDigit (n : Nat) (c : Char) : Nat := 10 * n + digitValue c

/-- The number that a numeral stands for, if the text is one: at least one digit, and nothing
else. -/
def readDecimal? (cs : List Char) : Option Nat :=
  if !cs.isEmpty && cs.all Char.isDigit then some (cs.foldl appendDigit 0) else none

theorem isDigit_digitChar {n : Nat} (h : n < 10) : (digitChar n).isDigit = true := by
  match n, h with
  | 0, _ | 1, _ | 2, _ | 3, _ | 4, _ | 5, _ | 6, _ | 7, _ | 8, _ | 9, _ => rfl

theorem digitValue_digitChar {n : Nat} (h : n < 10) : digitValue (digitChar n) = n := by
  match n, h with
  | 0, _ | 1, _ | 2, _ | 3, _ | 4, _ | 5, _ | 6, _ | 7, _ | 8, _ | 9, _ => rfl

theorem decimal_ne_nil (n : Nat) : decimal n ≠ [] := by
  rw [decimal]; split <;> simp

theorem isDigit_of_mem_decimal {n : Nat} : ∀ c ∈ decimal n, c.isDigit = true := by
  fun_induction decimal n with
  | case1 n h => simpa using isDigit_digitChar h
  | case2 n h ih =>
    intro c hc
    rcases List.mem_append.1 hc with hc | hc
    · exact ih c hc
    · rw [List.mem_singleton.1 hc]
      exact isDigit_digitChar (Nat.mod_lt _ (by decide))

theorem foldl_appendDigit_decimal (n : Nat) : (decimal n).foldl appendDigit 0 = n := by
  fun_induction decimal n with
  | case1 n h => simp [appendDigit, digitValue_digitChar h]
  | case2 n h ih =>
    rw [List.foldl_append, ih]
    simp only [List.foldl_cons, List.foldl_nil, appendDigit,
      digitValue_digitChar (Nat.mod_lt n (by decide : 0 < 10))]
    omega

theorem readDecimal?_decimal (n : Nat) : readDecimal? (decimal n) = some n := by
  have hall : (decimal n).all Char.isDigit = true := List.all_eq_true.2 isDigit_of_mem_decimal
  simp [readDecimal?, hall, decimal_ne_nil, foldl_appendDigit_decimal]

end SourceLint
