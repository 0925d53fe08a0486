import Mathlib.Data.List.Basic

/-!
# Runs of equal values

Where in a list a value occurs several times in a row. An index ends `n` occurrences of a value if it and the `n - 1` indices before it
all hold the value; runs may overlap, so that every index of a long run but the first few ends one. `trailing` counts what a program can
count: how many occurrences in a row lie just before an index.
-/

namespace Runs

universe u

variable {α : Type u} [DecidableEq α]

/-- The index `i` is the last of `n` consecutive ones that hold `a`. -/
def Ends (xs : List α) (a : α) (n i : Nat) : Prop := n ≤ i + 1 ∧ ∀ k, i < k + n → k ≤ i → xs[k]? = some a

/-- How many consecutive indices just before `i` hold `a`. -/
def trailing (xs : List α) (a : α) : Nat → Nat
  | 0 => 0
  | i + 1 => if xs[i]? = some a then trailing xs a i + 1 else 0

variable {xs : List α} {a : α} {i : Nat}

/-- One more occurrence makes the count longer. -/
theorem trailing_succ_of_eq (h : xs[i]? = some a) : trailing xs a (i + 1) = trailing xs a i + 1 := if_pos h

/-- Anything else starts the count anew. -/
theorem trailing_succ_of_ne (h : xs[i]? ≠ some a) : trailing xs a (i + 1) = 0 := if_neg h

/-- An index ends `n` occurrences exactly if at least that many lie just before the next index. -/
theorem ends_iff {n : Nat} : Ends xs a n i ↔ n ≤ trailing xs a (i + 1) := by
  induction i generalizing n with
  | zero =>
    by_cases h : xs[0]? = some a
    · rw [trailing_succ_of_eq h]
      refine ⟨fun he => he.1, fun hn => ⟨hn, fun k _ hk => ?_⟩⟩
      rwa [Nat.le_zero.mp hk]
    · rw [trailing_succ_of_ne h]
      refine ⟨fun he => ?_, fun hn => ⟨by omega, fun k hk hk' => by omega⟩⟩
      by_contra hn
      exact h (he.2 0 (by omega) (Nat.le_refl 0))
  | succ i ih =>
    by_cases h : xs[i + 1]? = some a
    · rw [trailing_succ_of_eq h]
      cases n with
      | zero => exact iff_of_true ⟨by omega, fun k hk hk' => by omega⟩ (Nat.zero_le _)
      | succ n =>
        rw [Nat.succ_le_succ_iff, ← ih]
        refine ⟨fun he => ⟨by have := he.1; omega, fun k hk hk' => he.2 k (by omega) (by omega)⟩,
          fun he => ⟨by have := he.1; omega, fun k hk hk' => ?_⟩⟩
        rcases Nat.lt_or_eq_of_le hk' with hlt | rfl
        · exact he.2 k (by omega) (by omega)
        · exact h
    · rw [trailing_succ_of_ne h]
      refine ⟨fun he => ?_, fun hn => ⟨by omega, fun k hk hk' => by omega⟩⟩
      by_contra hn
      exact h (he.2 (i + 1) (by omega) (Nat.le_refl _))

/-- It is decided by counting. -/
instance (xs : List α) (a : α) (n i : Nat) : Decidable (Ends xs a n i) := decidable_of_iff _ ends_iff.symm

omit [DecidableEq α] in
/-- The last of at least one occurrence is one. -/
theorem Ends.getElem? {n : Nat} (h : Ends xs a n i) (hn : 1 ≤ n) : xs[i]? = some a := h.2 i (by omega) (Nat.le_refl i)

/-- The index after the most recent one before `i` that ends `n` occurrences of `a`, or the start if there is none. -/
def since (xs : List α) (a : α) (n : Nat) : Nat → Nat
  | 0 => 0
  | i + 1 => if Ends xs a n i then i + 1 else since xs a n i

/-- An index that ends `n` occurrences is the most recent one. -/
theorem since_succ_of_ends {n : Nat} (h : Ends xs a n i) : since xs a n (i + 1) = i + 1 := if_pos h

/-- Any other index leaves the most recent one as it was. -/
theorem since_succ_of_not_ends {n : Nat} (h : ¬Ends xs a n i) : since xs a n (i + 1) = since xs a n i := if_neg h

/-- The most recent one does not lie ahead. -/
theorem since_le (xs : List α) (a : α) (n i : Nat) : since xs a n i ≤ i := by
  induction i with
  | zero => exact Nat.le_refl 0
  | succ i ih =>
    by_cases h : Ends xs a n i
    · exact Nat.le_of_eq (since_succ_of_ends h)
    · rw [since_succ_of_not_ends h]
      omega

end Runs
