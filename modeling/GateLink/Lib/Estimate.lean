import Mathlib

/-!
# Estimates in whole units

What is left of a way is known exactly, and estimated in whole units. Distances are taken off both, off the estimate rounded down, and
neither goes below zero. The two move apart by less than a unit with each distance (`abs_sub_lt`): what is rounded off is less than that,
and the cut at zero brings them together.
-/

namespace Estimate

variable {K : Type*} [Field K] [LinearOrder K] [IsStrictOrderedRing K] [FloorSemiring K]

/-- A difference of natural numbers is cut at zero. -/
theorem cast_sub_eq_max (m n : Nat) : ((m - n : Nat) : K) = max ((m : K) - n) 0 := by
  rcases Nat.le_total n m with h | h
  · rw [Nat.cast_sub h, max_eq_left (sub_nonneg.mpr (Nat.cast_le.mpr h))]
  · rw [Nat.sub_eq_zero_of_le h, Nat.cast_zero, max_eq_right (sub_nonpos.mpr (Nat.cast_le.mpr h))]

/-- A distance moves the estimate and what it estimates apart by less than a unit. -/
theorem abs_sub_lt (rest : K) (estimate : Nat) {distance : K} (h : 0 ≤ distance) :
    |max (rest - distance) 0 - ((estimate - ⌊distance⌋₊ : Nat) : K)| < |rest - estimate| + 1 := by
  have hle : (⌊distance⌋₊ : K) ≤ distance := Nat.floor_le h
  have hlt : distance < ⌊distance⌋₊ + 1 := Nat.lt_floor_add_one distance
  have hdropped : |(⌊distance⌋₊ : K) - distance| < 1 := by
    rw [abs_sub_comm, abs_of_nonneg (sub_nonneg.mpr hle)]
    exact sub_lt_iff_lt_add'.mpr hlt
  rw [cast_sub_eq_max]
  calc |max (rest - distance) 0 - max ((estimate : K) - ⌊distance⌋₊) 0|
      ≤ |rest - distance - (estimate - ⌊distance⌋₊)| := abs_max_sub_max_le_abs _ _ _
    _ = |rest - estimate + (⌊distance⌋₊ - distance)| := by rw [show rest - distance - (estimate - ⌊distance⌋₊) =
          rest - estimate + (⌊distance⌋₊ - distance) by ring]
    _ ≤ |rest - estimate| + |(⌊distance⌋₊ : K) - distance| := abs_add_le _ _
    _ < |rest - estimate| + 1 := add_lt_add_of_le_of_lt le_rfl hdropped

omit [IsStrictOrderedRing K] in
/-- The estimate is used up exactly if the distance covers it. -/
theorem sub_floor_eq_zero_iff (estimate : Nat) {distance : K} (h : 0 ≤ distance) :
    estimate - ⌊distance⌋₊ = 0 ↔ (estimate : K) ≤ distance := by
  rw [Nat.sub_eq_zero_iff_le, Nat.le_floor_iff h]

end Estimate
