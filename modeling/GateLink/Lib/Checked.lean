import Mathlib.Data.Nat.Basic

/-!
# Checked arithmetic

Unsigned integers of a fixed width as natural numbers up to a greatest one. An operation has a result only if it does not overflow; as
long as what it computes is in range, that is the result.
-/

namespace Checked

/-- A result, if it is in range. -/
def fit (greatest n : Nat) : Option Nat := if n ≤ greatest then some n else none

/-- `checked_add`. -/
def add (greatest a b : Nat) : Option Nat := fit greatest (a + b)

/-- `checked_sub`. -/
def sub (a b : Nat) : Option Nat := if b ≤ a then some (a - b) else none

/-- `checked_mul`. -/
def mul (greatest a b : Nat) : Option Nat := fit greatest (a * b)

/-- A result within the bound is not checked away; so for each operation. -/
theorem fit_of_le {greatest n : Nat} (h : n ≤ greatest) : fit greatest n = some n := if_pos h

/-- A sum in range is computed. -/
theorem add_of_le {greatest a b : Nat} (h : a + b ≤ greatest) : add greatest a b = some (a + b) := fit_of_le h

/-- A difference that is not negative is computed. -/
theorem sub_of_le {a b : Nat} (h : b ≤ a) : sub a b = some (a - b) := if_pos h

/-- A product in range is computed. -/
theorem mul_of_le {greatest a b : Nat} (h : a * b ≤ greatest) : mul greatest a b = some (a * b) := fit_of_le h

end Checked
