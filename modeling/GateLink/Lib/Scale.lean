import Mathlib.Data.Nat.Basic

/-!
# Scaling with rounding

A full span of `full` steps stands for `k` units. A distance in units is scaled to `full * distance / k` steps, and a number of
steps back to `steps * k / max full 1` units, both rounded down. Each rounding loses something; one step more makes up for both.
-/

namespace Scale

/-- One step more than a distance is scaled to covers the distance. -/
theorem le_unscale {k full distance steps : Nat} (hk : 0 < k) (hd : distance ≤ k) (h : full * distance / k + 1 ≤ steps) :
    distance ≤ steps * k / max full 1 := by
  rw [Nat.le_div_iff_mul_le (Nat.lt_of_lt_of_le Nat.one_pos (Nat.le_max_right full 1))]
  have hle : (full * distance / k + 1) * k ≤ steps * k := Nat.mul_le_mul_right k h
  rcases Nat.eq_zero_or_pos full with hf | hf
  · subst hf
    rw [Nat.zero_mul, Nat.zero_div, Nat.zero_add, Nat.one_mul] at hle
    exact Nat.le_trans (Nat.le_of_eq (Nat.mul_one distance)) (Nat.le_trans hd hle)
  · have hlt : full * distance < (full * distance / k + 1) * k := (Nat.div_lt_iff_lt_mul hk).mp (Nat.lt_succ_self _)
    rw [Nat.max_eq_left hf, Nat.mul_comm]
    exact Nat.le_of_lt (Nat.lt_of_lt_of_le hlt hle)

/-- More steps cover no less. -/
theorem unscale_mono {k full steps steps' : Nat} (h : steps ≤ steps') : steps * k / max full 1 ≤ steps' * k / max full 1 :=
  Nat.div_le_div_right (Nat.mul_le_mul_right k h)

end Scale
