import Mathlib.Data.List.Basic

/-!
# Traces: logs that only grow

A trace is a list with the newest entry first. `Adds P old new` says that `new` is `old` with entries written on top of it,
each of which satisfies `P`. A trace can be cut into sections at entries of a kind (`List.splitOnP`); an entry that is written is
either one of these, and begins a new section, or goes on top of the latest section.
-/

namespace Trace

universe u

variable {α : Type u}

/-- `new` is `old` with entries on top of it, all of which satisfy `P`. -/
def Adds (P : α → Prop) (old new : List α) : Prop := ∃ fresh, new = fresh ++ old ∧ ∀ e ∈ fresh, P e

/-- A trace adds nothing to itself. -/
theorem Adds.refl (P : α → Prop) (l : List α) : Adds P l l := ⟨[], rfl, by simp⟩

/-- What is added to what was added to a trace is added to the trace. -/
theorem Adds.trans {P : α → Prop} {l l' l'' : List α} (h : Adds P l l') (h' : Adds P l' l'') : Adds P l l'' := by
  obtain ⟨f, rfl, hf⟩ := h
  obtain ⟨f', rfl, hf'⟩ := h'
  refine ⟨f' ++ f, by rw [List.append_assoc], fun e he => ?_⟩
  rcases List.mem_append.mp he with he | he
  · exact hf' e he
  · exact hf e he

/-- One more entry is added. -/
theorem Adds.cons {P : α → Prop} {l l' : List α} (h : Adds P l l') {e : α} (he : P e) : Adds P l (e :: l') := by
  obtain ⟨f, rfl, hf⟩ := h
  exact ⟨e :: f, rfl, List.forall_mem_cons.mpr ⟨he, hf⟩⟩

/-- What all added entries have, they have with all that follows from it. -/
theorem Adds.mono {P Q : α → Prop} {l l' : List α} (h : Adds P l l') (hPQ : ∀ e, P e → Q e) : Adds Q l l' := by
  obtain ⟨f, rfl, hf⟩ := h
  exact ⟨f, rfl, fun e he => hPQ e (hf e he)⟩

/-- A property of every entry of the old trace and of every entry added is one of every entry of the new trace. -/
theorem Adds.forall {P : α → Prop} {l l' : List α} (h : Adds P l l') (hl : ∀ e ∈ l, P e) : ∀ e ∈ l', P e := by
  obtain ⟨f, rfl, hf⟩ := h
  intro e he
  rcases List.mem_append.mp he with he | he
  · exact hf e he
  · exact hl e he

/-- Entries without a property leave the number of entries with it as it was. -/
theorem Adds.countP_eq {P : α → Prop} {l l' : List α} (h : Adds P l l') {q : α → Bool} (hq : ∀ e, P e → q e = false) :
    l'.countP q = l.countP q := by
  obtain ⟨f, rfl, hf⟩ := h
  have h0 : f.countP q = 0 := List.countP_eq_zero.mpr fun e he => by rw [hq e (hf e he)]; nofun
  rw [List.countP_append, h0, Nat.zero_add]

/-- An entry with what was written before it is part of the old trace, or it was written on top of it. -/
theorem suffix_or_mem {e : α} {rest fresh old : List α} (h : e :: rest <:+ fresh ++ old) : e :: rest <:+ old ∨ e ∈ fresh := by
  induction fresh with
  | nil => exact Or.inl h
  | cons x fresh ih =>
    rcases List.suffix_cons_iff.mp h with he | h
    · obtain ⟨rfl, -⟩ := List.cons.inj he
      exact Or.inr List.mem_cons_self
    · exact (ih h).imp_right (List.mem_cons_of_mem x)

/-- The latest section of a trace is what was written since the last cut. -/
theorem splitOnP_eq_cons (p : α → Bool) (l : List α) : ∃ rest, l.splitOnP p = l.takeWhile (fun x => !p x) :: rest := by
  induction l with
  | nil => exact ⟨[], List.splitOnP_nil⟩
  | cons x l ih =>
    obtain ⟨rest, hr⟩ := ih
    rw [List.splitOnP_cons_eq_if_modifyHead]
    cases hx : p x with
    | true => exact ⟨l.splitOnP p, by simp [hx]⟩
    | false => exact ⟨rest, by simp [hx, hr]⟩

/-- A property of every section, kept by a cut: it must hold of the empty section that begins. -/
theorem forall_splitOnP_cut {p : α → Bool} {P : List α → Prop} {x : α} {l : List α} (hx : p x = true) (h0 : P [])
    (h : ∀ section' ∈ l.splitOnP p, P section') : ∀ section' ∈ (x :: l).splitOnP p, P section' := by
  rw [List.splitOnP_cons_eq_if_modifyHead, if_pos hx]
  exact List.forall_mem_cons.mpr ⟨h0, h⟩

/-- A property of every section, kept by an entry that is no cut: it must hold of the latest section with the entry on top. -/
theorem forall_splitOnP_cons {p : α → Bool} {P : List α → Prop} {x : α} {l : List α} (hx : p x = false)
    (hP : P (x :: l.takeWhile fun x => !p x)) (h : ∀ section' ∈ l.splitOnP p, P section') :
    ∀ section' ∈ (x :: l).splitOnP p, P section' := by
  obtain ⟨rest, hr⟩ := splitOnP_eq_cons p l
  rw [List.splitOnP_cons_eq_if_modifyHead, if_neg (by simp [hx]), hr]
  rw [hr] at h
  exact List.forall_mem_cons.mpr ⟨hP, (List.forall_mem_cons.mp h).2⟩

end Trace
