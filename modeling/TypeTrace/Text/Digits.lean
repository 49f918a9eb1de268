/-!
# Digits

The values of digits and numerals in a base of at most sixteen.
-/

namespace TypeTrace.Text

/-- The value of a hexadecimal digit. -/
def hexValue? (character : Char) : Option Nat :=
  let code := character.toNat
  if 48 ≤ code ∧ code ≤ 57 then some (code - 48)
  else if 97 ≤ code ∧ code ≤ 102 then some (code - 87)
  else if 65 ≤ code ∧ code ≤ 70 then some (code - 55)
  else none

/-- The value of a digit in a base of at most sixteen. -/
def digitValue? (base : Nat) (character : Char) : Option Nat :=
  (hexValue? character).filter (· < base)

/-- The value of digits behind a number that has been read already. -/
def continued? (base value : Nat) : List Char → Option Nat
  | [] => some value
  | digit :: rest => do continued? base (value * base + (← digitValue? base digit)) rest

/-- The value of a numeral, which has at least one digit and nothing else. -/
def numeral? (base : Nat) (digits : List Char) : Option Nat :=
  if digits.isEmpty then none else continued? base 0 digits

end TypeTrace.Text
