import Mathlib.Data.List.Basic
import Mathlib.Data.List.Infix

/-!
# Bounded queues

A queue is a list, the oldest item first, that holds at most `cap` items. `trySend` fails if the queue is full; `force` drops the oldest
items until there is room. However many items are forced in, the queue then ends with the newest of them (`suffix_foldl_force`), and
what was in it is dropped from its front only (`mem_foldl_force`).
-/

namespace Queue

universe u

variable {α : Type u}

/-- Appends the item, if there is room. -/
def trySend (cap : Nat) (q : List α) (x : α) : Option (List α) := if q.length < cap then some (q ++ [x]) else none

/-- Appends the item, and drops the oldest ones as long as there is no room for it. -/
def force (cap : Nat) : List α → α → List α
  | [], x => [x]
  | m :: q, x =>
    match trySend cap (m :: q) x with
    | some sent => sent
    | none => force cap q x

variable {cap : Nat}

theorem force_eq (hcap : 0 < cap) (q : List α) (x : α) : force cap q x = (q ++ [x]).drop (q.length + 1 - cap) := by
  induction q with
  | nil =>
    have hzero : 0 + 1 - cap = 0 := by omega
    rw [force, List.length_nil, hzero]
    rfl
  | cons m q ih =>
    unfold force trySend
    by_cases hroom : (m :: q).length < cap
    · have hzero : (m :: q).length + 1 - cap = 0 := by omega
      simp only [if_pos hroom, hzero, List.drop_zero]
    · have hsucc : (m :: q).length + 1 - cap = q.length + 1 - cap + 1 := by
        rw [List.length_cons] at hroom ⊢
        omega
      simp only [if_neg hroom]
      rw [ih, hsucc, List.cons_append, List.drop_succ_cons]

/-- Forcing items in keeps the newest of all items. -/
theorem foldl_force (hcap : 0 < cap) {q : List α} (hq : q.length ≤ cap) (xs : List α) :
    xs.foldl (force cap) q = (q ++ xs).drop (q.length + xs.length - cap) := by
  induction xs generalizing q with
  | nil =>
    have hzero : q.length + ([] : List α).length - cap = 0 := by
      rw [List.length_nil]
      omega
    rw [hzero, List.append_nil]
    rfl
  | cons x xs ih =>
    have hforce := force_eq hcap q x
    have hlen : (force cap q x).length = q.length + 1 - (q.length + 1 - cap) := by
      rw [hforce, List.length_drop, List.length_append, List.length_singleton]
    have hle : (force cap q x).length ≤ cap := by omega
    have happend : force cap q x ++ xs = (q ++ x :: xs).drop (q.length + 1 - cap) := by
      have hle' : q.length + 1 - cap ≤ (q ++ [x]).length := by
        rw [List.length_append, List.length_singleton]
        omega
      rw [hforce, ← List.drop_append_of_le_length hle', List.append_assoc]
      rfl
    rw [List.foldl_cons, ih hle, happend, List.drop_drop]
    congr 1
    rw [hlen, List.length_cons]
    omega

theorem length_foldl_force_le (hcap : 0 < cap) {q : List α} (hq : q.length ≤ cap) (xs : List α) :
    (xs.foldl (force cap) q).length ≤ cap := by
  rw [foldl_force hcap hq, List.length_drop, List.length_append]
  omega

/-- What was forced in last is at the end of the queue, if it fits. -/
theorem suffix_foldl_force (hcap : 0 < cap) {q xs : List α} (hq : q.length ≤ cap) (hxs : xs.length ≤ cap) :
    xs <:+ xs.foldl (force cap) q := by
  rw [foldl_force hcap hq, List.drop_append_of_le_length (by omega)]
  exact List.suffix_append _ _

/-- An item stays in the queue unless it is one of the oldest, for which there is no room. -/
theorem mem_foldl_force (hcap : 0 < cap) {q xs : List α} (hq : q.length ≤ cap) {m : α} (hm : m ∈ q)
    (hkept : m ∉ q.take (q.length + xs.length - cap)) : m ∈ xs.foldl (force cap) q := by
  rw [foldl_force hcap hq]
  have hsplit : m ∈ q.take (q.length + xs.length - cap) ++ q.drop (q.length + xs.length - cap) := by
    rw [List.take_append_drop]
    exact hm
  have hdrop : m ∈ q.drop (q.length + xs.length - cap) := (List.mem_append.mp hsplit).resolve_left hkept
  rw [List.drop_append]
  exact List.mem_append_left _ hdrop

/-- Nothing comes into the queue but what is forced in. -/
theorem foldl_force_subset (hcap : 0 < cap) (q xs : List α) : xs.foldl (force cap) q ⊆ q ++ xs := by
  induction xs generalizing q with
  | nil =>
    rw [List.append_nil]
    exact List.Subset.refl q
  | cons x xs ih =>
    have hforce : force cap q x ⊆ q ++ [x] := by
      rw [force_eq hcap]
      exact List.drop_subset _ _
    intro m hm
    rcases List.mem_append.mp (ih (force cap q x) hm) with hqueue | hlater
    · have hfirst : m ∈ q ++ [x] := hforce hqueue
      simp only [List.mem_append, List.mem_singleton] at hfirst
      simp only [List.mem_append, List.mem_cons]
      exact hfirst.imp_right Or.inl
    · exact List.mem_append_right _ (List.mem_cons_of_mem _ hlater)

end Queue
