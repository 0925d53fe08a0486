import Mathlib.Data.List.Basic

/-!
# Framing: packets in a stream

A stream carries packets with no marks between them. A receiver finds out from the front of the stream alone how long the first packet
is, once all of it has come (`len`). If every packet that is sent is found in this way, whatever follows it (`Framed`), the receiver
takes the stream apart into the packets that were sent (`split_flatten`), so that a stream has one reading only. A receiver that takes one
packet after the other off what has come so far (`Taken`) takes these, however the stream comes in.
-/

namespace Framing

universe u

variable {α : Type u} (len : List α → Option Nat)

/-- The packet is found at the front of every stream that begins with it. -/
structure Framed (p : List α) : Prop where
  ne_nil : p ≠ []
  front : ∀ rest, len (p ++ rest) = some p.length

/-- Takes packets off the front of a stream, at most `bound` of them: the packets, and what is left. -/
def split : Nat → List α → List (List α) × List α
  | 0, s => ([], s)
  | bound + 1, s =>
    match len s with
    | some n => (s.take n :: (split bound (s.drop n)).1, (split bound (s.drop n)).2)
    | none => ([], s)

variable {len}

/-- A stream is taken apart into the packets it was put together from, and a rest that is not a packet yet. -/
theorem split_flatten {ps : List (List α)} (h : ∀ p ∈ ps, Framed len p) {tail : List α} (htail : len tail = none) {bound : Nat}
    (hb : ps.length ≤ bound) : split len bound (ps.flatten ++ tail) = (ps, tail) := by
  induction ps generalizing bound with
  | nil =>
    cases bound with
    | zero => rfl
    | succ bound =>
      rw [List.flatten_nil, List.nil_append, split, htail]
  | cons p ps ih =>
    obtain ⟨hp, hps⟩ := List.forall_mem_cons.mp h
    cases bound with
    | zero => exact absurd hb (Nat.not_succ_le_zero _)
    | succ bound =>
      have hrest : split len bound (ps.flatten ++ tail) = (ps, tail) := ih hps (Nat.le_of_succ_le_succ hb)
      rw [List.flatten_cons, List.append_assoc, split, hp.front]
      simp only [List.take_left, List.drop_left, hrest]

/-- Packets are not empty, so there are no more of them than bytes. -/
theorem length_le_flatten {ps : List (List α)} (h : ∀ p ∈ ps, Framed len p) : ps.length ≤ ps.flatten.length := by
  induction ps with
  | nil => exact Nat.le_refl 0
  | cons p ps ih =>
    obtain ⟨hp, hps⟩ := List.forall_mem_cons.mp h
    have hpos : 0 < p.length := List.length_pos_of_ne_nil hp.ne_nil
    have hle := ih hps
    rw [List.flatten_cons, List.length_append, List.length_cons]
    omega

/-- The packets of a stream that ends with one of them are those that are found in it. -/
theorem split_of_flatten {ps : List (List α)} (h : ∀ p ∈ ps, Framed len p) (hnil : len [] = none) :
    split len ps.flatten.length ps.flatten = (ps, []) := by
  have hsplit := split_flatten h hnil (length_le_flatten h)
  rwa [List.append_nil] at hsplit

/-! ## A receiver -/

/-- What has come is a packet as soon as its length is found: it is found at the front of everything that begins with it. -/
def Stable (len : List α → Option Nat) : Prop := ∀ s n, len s = some n → n ≤ s.length ∧ Framed len (s.take n)

/-- The packets a receiver has taken off the front of a stream, and what it has received of the stream beyond them. -/
structure Taken (len : List α → Option Nat) (received : List α) (taken : List (List α)) (rest : List α) : Prop where
  framed : ∀ p ∈ taken, Framed len p
  stream : received = taken.flatten ++ rest

namespace Taken

variable {received rest : List α} {taken : List (List α)}

theorem nil (len : List α → Option Nat) : Taken len [] [] [] := ⟨nofun, rfl⟩

theorem receive (h : Taken len received taken rest) (data : List α) : Taken len (received ++ data) taken (rest ++ data) :=
  ⟨h.framed, by rw [h.stream, List.append_assoc]⟩

/-- The packet that is found at the front is taken. -/
theorem take (h : Taken len received taken rest) (hlen : Stable len) {n : Nat} (hn : len rest = some n) :
    Taken len received (taken ++ [rest.take n]) (rest.drop n) := by
  refine ⟨fun p hp => ?_, ?_⟩
  · rcases List.mem_append.mp hp with hold | hnew
    · exact h.framed p hold
    · obtain rfl := List.mem_singleton.mp hnew
      exact (hlen _ _ hn).2
  · rw [h.stream, List.flatten_append, List.flatten_singleton, List.append_assoc, List.take_append_drop]

/-- What was taken are the first packets that are found in the stream. -/
theorem prefix_split (h : Taken len received taken rest) : taken <+: (split len received.length received).1 := by
  obtain ⟨hframed, rfl⟩ := h
  have hsplit (bound : Nat) (hbound : taken.length ≤ bound) : taken <+: (split len bound (taken.flatten ++ rest)).1 := by
    induction taken generalizing bound with
    | nil => exact List.nil_prefix
    | cons p taken ih =>
      obtain ⟨hp, htaken⟩ := List.forall_mem_cons.mp hframed
      cases bound with
      | zero => exact absurd hbound (Nat.not_succ_le_zero _)
      | succ bound =>
        rw [List.flatten_cons, List.append_assoc, split, hp.front]
        simp only [List.take_left, List.drop_left]
        exact (List.cons_prefix_cons).mpr ⟨rfl, ih htaken bound (Nat.le_of_succ_le_succ hbound)⟩
  refine hsplit _ (Nat.le_trans (length_le_flatten hframed) ?_)
  rw [List.length_append]
  exact Nat.le_add_right _ _

/-- With no packet at the front of the rest, all packets that are found in the stream were taken. -/
theorem eq_split (h : Taken len received taken rest) (hrest : len rest = none) : (split len received.length received).1 = taken := by
  obtain ⟨hframed, rfl⟩ := h
  have hbound : taken.length ≤ (taken.flatten ++ rest).length := by
    rw [List.length_append]
    exact Nat.le_trans (length_le_flatten hframed) (Nat.le_add_right _ _)
  rw [split_flatten hframed hrest hbound]

/-- A stream that is put together from packets is taken apart into the same packets, in the order in which they were put there. -/
theorem prefix_sent (h : Taken len received taken rest) {sent : List (List α)} (hsent : ∀ p ∈ sent, Framed len p)
    (hreceived : received <+: sent.flatten) : taken <+: sent := by
  obtain ⟨hframed, rfl⟩ := h
  have hprefix : taken.flatten <+: sent.flatten := (List.prefix_append _ rest).trans hreceived
  clear hreceived
  induction taken generalizing sent with
  | nil => exact List.nil_prefix
  | cons p taken ih =>
    obtain ⟨hp, htaken⟩ := List.forall_mem_cons.mp hframed
    obtain ⟨later, hlater⟩ := hprefix
    cases sent with
    | nil =>
      rw [List.flatten_cons, List.append_assoc, List.flatten_nil] at hlater
      exact absurd (List.append_eq_nil_iff.mp hlater).1 hp.ne_nil
    | cons q sent =>
      obtain ⟨hq, hlaterSent⟩ := List.forall_mem_cons.mp hsent
      rw [List.flatten_cons, List.flatten_cons, List.append_assoc] at hlater
      -- both packets are found at the front of the same stream
      have hlength : p.length = q.length := Option.some.inj ((hp.front _).symm.trans ((congrArg len hlater).trans (hq.front _)))
      obtain ⟨rfl, hrest⟩ := List.append_inj hlater hlength
      exact List.cons_prefix_cons.mpr ⟨rfl, ih hlaterSent htaken ⟨later, hrest⟩⟩

end Taken

end Framing
