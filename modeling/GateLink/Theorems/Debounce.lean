import GateLink.Debounce
import GateLink.Lib.Runs
import Mathlib.Logic.ExistsUnique

/-!
# The debouncer returns one event per press

What the debouncer returns is compared with the samples themselves, by windows of `stableSamples` equal ones (`Lib/Runs.lean`). The
invariant behind it (`Tracks`) says what its two variables mean: the counter is the number of samples in a row that just had the level it
looks for, and while it waits for a release it has returned exactly one event since the last one.
-/

namespace GateLink

open Runs

namespace DebounceAux

/-- `true` was returned for the sample at an index. -/
def Fired (returned : List Bool) (k : Nat) : Prop := returned[k]? = some true

theorem fired_lt {returned : List Bool} {k : Nat} (h : Fired returned k) : k < returned.length := by
  obtain ⟨hk, -⟩ := List.getElem?_eq_some_iff.mp h
  exact hk

/-- What was returned before stays, and the newest result is what was returned just now. -/
theorem fired_append {returned : List Bool} {r : Bool} {k : Nat} :
    Fired (returned ++ [r]) k ↔ Fired returned k ∨ (k = returned.length ∧ r = true) := by
  unfold Fired
  rcases Nat.lt_trichotomy k returned.length with hlt | rfl | hgt
  · rw [List.getElem?_append_left hlt]
    exact ⟨Or.inl, fun h => h.resolve_right fun hk => by omega⟩
  · simp
  · rw [List.getElem?_eq_none (by simp; omega), List.getElem?_eq_none (by omega)]
    refine ⟨fun h => ?_, fun h => ?_⟩
    · cases h
    · rcases h with h | ⟨hk, -⟩
      · cases h
      · omega

/-- Exactly one event in the window from `start` up to and including `last`. -/
def OneEvent (returned : List Bool) (start last : Nat) : Prop := ∃! k, start ≤ k ∧ k ≤ last ∧ Fired returned k

/-- One event stays one event, if none is returned for a sample in the window. -/
theorem OneEvent.append {returned : List Bool} {start last last' : Nat} (h : OneEvent returned start last) (hl : last ≤ last')
    (hf : ∀ k, last < k → k ≤ last' → ¬Fired returned k) {r : Bool} (hr : last' < returned.length ∨ r = false) :
    OneEvent (returned ++ [r]) start last' := by
  obtain ⟨k, ⟨hs, hk, hfired⟩, huniq⟩ := h
  refine ⟨k, ⟨hs, by omega, fired_append.mpr (Or.inl hfired)⟩, fun k' hk' => ?_⟩
  have hold : Fired returned k' := (fired_append.mp hk'.2.2).resolve_right fun hnew =>
    hr.elim (fun hlt => by omega) fun hr => by simp [hr] at hnew
  refine huniq k' ⟨hk'.1, ?_, hold⟩
  by_contra hgt
  exact hf k' (by omega) hk'.2.1 hold

/-- The debouncer after the first `m` samples, with what it returned for them. -/
structure Tracks (n : Nat) (samples : List Bool) (m : Nat) (returned : List Bool) (d : Debouncer) : Prop where
  stableSamples : d.stableSamples.val = n
  length : returned.length = m
  /-- The counter is how many samples in a row just had the level it looks for. -/
  stable : d.stable.val = trailing samples d.armed m
  lt : d.stable.val < n
  /-- Every event is at the last of `n` pressed samples. -/
  pressed : ∀ k, Fired returned k → Ends samples true n k
  /-- While it looks for a press, it has returned nothing since the last release. -/
  armed : d.armed = true → ∀ k, since samples false n m ≤ k → ¬Fired returned k
  /-- While it looks for a release, it has returned one event since the last one. -/
  disarmed : d.armed = false → OneEvent returned (since samples false n m) m
  /-- Every index before that ends `n` pressed samples has its one event. -/
  exact : ∀ i < m, Ends samples true n i → OneEvent returned (since samples false n i) i

namespace Tracks

variable {n m : Nat} {samples returned : List Bool} {d : Debouncer} {x r : Bool}

theorem exact_append (h : Tracks n samples m returned d)
    (hm : Ends samples true n m → OneEvent (returned ++ [r]) (since samples false n m) m) :
    ∀ i < m + 1, Ends samples true n i → OneEvent (returned ++ [r]) (since samples false n i) i := by
  intro i hi he
  rcases Nat.lt_succ_iff_lt_or_eq.mp hi with hlt | rfl
  · exact (h.exact i hlt he).append (Nat.le_refl i) (fun k hk hk' => by omega) (Or.inl (by rw [h.length]; exact hlt))
  · exact hm he

/-- Nothing is returned and no release is complete: the window of the latest event grows by one sample. -/
theorem disarmed_append (h : Tracks n samples m returned d) (hd : d.armed = false) (he : ¬Ends samples false n m) :
    OneEvent (returned ++ [false]) (since samples false n m) m ∧
      OneEvent (returned ++ [false]) (since samples false n (m + 1)) (m + 1) := by
  have hlen := h.length
  rw [since_succ_of_not_ends he]
  exact ⟨(h.disarmed hd).append (Nat.le_refl m) (fun k hk hk' => by omega) (Or.inr rfl),
    (h.disarmed hd).append (Nat.le_succ m) (fun k hk hk' hf => by have := fired_lt hf; omega) (Or.inr rfl)⟩

/-- Nothing is returned while the debouncer looks for a press: there is no event since the latest release. -/
theorem armed_append (h : Tracks n samples m returned d) (hd : d.armed = true) :
    ∀ k, since samples false n (m + 1) ≤ k → ¬Fired (returned ++ [false]) k := by
  intro k hk hf
  have hold : Fired returned k := (fired_append.mp hf).resolve_right fun hnew => Bool.false_ne_true hnew.2
  have hlt := fired_lt hold
  rw [h.length] at hlt
  by_cases he : Ends samples false n m
  · rw [since_succ_of_ends he] at hk
    omega
  · rw [since_succ_of_not_ends he] at hk
    exact h.armed hd k hk hold

/-- A sample of the other level: the counter starts again. -/
theorem reset (h : Tracks n samples m returned d) (hx : samples[m]? = some x) (ha : x ≠ d.armed) :
    Tracks n samples (m + 1) (returned ++ [false]) { d with stable := 0 } := by
  have hn : 1 ≤ n := Nat.lt_of_le_of_lt (Nat.zero_le _) h.lt
  have hother : samples[m]? ≠ some d.armed := by simpa [hx] using ha
  refine ⟨h.stableSamples, by simp [h.length], (trailing_succ_of_ne hother).symm, hn, fun k hf => ?_, h.armed_append,
    fun hd => ?_, h.exact_append fun he => ?_⟩
  · exact h.pressed k ((fired_append.mp hf).resolve_right fun hnew => Bool.false_ne_true hnew.2)
  · exact (h.disarmed_append hd fun he => hother (by rw [hd]; exact he.getElem? hn)).2
  · have hd : d.armed = false := by
      rw [he.getElem? hn] at hother
      simpa using hother
    exact (h.disarmed_append hd fun he => hother (by rw [hd]; exact he.getElem? hn)).1

/-- A sample of the level looked for, but too few in a row so far. -/
theorem count (h : Tracks n samples m returned d) (hx : samples[m]? = some d.armed) {stable : U8}
    (hs : stable.val = d.stable.val + 1) (hlt : stable.val < n) :
    Tracks n samples (m + 1) (returned ++ [false]) { d with stable := stable } := by
  have htrail : stable.val = trailing samples d.armed (m + 1) := by rw [trailing_succ_of_eq hx, hs, h.stable]
  have hends : ¬Ends samples d.armed n m := by
    rw [ends_iff]
    omega
  refine ⟨h.stableSamples, by simp [h.length], htrail, hlt, fun k hf => ?_, h.armed_append, fun hd => ?_,
    h.exact_append fun he => ?_⟩
  · exact h.pressed k ((fired_append.mp hf).resolve_right fun hnew => Bool.false_ne_true hnew.2)
  · exact (h.disarmed_append hd (hd ▸ hends)).2
  · have hn : 1 ≤ n := Nat.lt_of_le_of_lt (Nat.zero_le _) h.lt
    have hd : d.armed = true := by
      rw [he.getElem? hn] at hx
      exact (Option.some.inj hx).symm
    exact absurd (hd ▸ he) hends

/-- The last of `n` pressed samples: an event is returned, and the debouncer looks for a release. -/
theorem press (h : Tracks n samples m returned d) (hx : samples[m]? = some true) (hd : d.armed = true)
    (hfull : n ≤ d.stable.val + 1) :
    Tracks n samples (m + 1) (returned ++ [true]) { d with stable := 0, armed := false } := by
  have hn : 1 ≤ n := Nat.lt_of_le_of_lt (Nat.zero_le _) h.lt
  have hends : Ends samples true n m := by
    rw [ends_iff, trailing_succ_of_eq hx]
    rw [h.stable, hd] at hfull
    exact hfull
  have hnot : ¬Ends samples false n m := fun he => by simp [he.getElem? hn] at hx
  have hnew : Fired (returned ++ [true]) m := fired_append.mpr (Or.inr ⟨h.length.symm, rfl⟩)
  have hone (last : Nat) (hl : m ≤ last) : OneEvent (returned ++ [true]) (since samples false n m) last := by
    refine ⟨m, ⟨since_le _ _ _ _, hl, hnew⟩, fun k hk => ?_⟩
    rcases fired_append.mp hk.2.2 with hold | hnow
    · exact absurd hold (h.armed hd k hk.1)
    · rw [hnow.1, h.length]
  refine ⟨h.stableSamples, by simp [h.length], ?_, hn, fun k hf => ?_, fun ha => absurd ha Bool.false_ne_true, fun _ => ?_,
    h.exact_append fun _ => hone m (Nat.le_refl m)⟩
  · exact (trailing_succ_of_ne (by simp [hx])).symm
  · rcases fired_append.mp hf with hold | hnow
    · exact h.pressed k hold
    · rw [hnow.1, h.length]
      exact hends
  · rw [since_succ_of_not_ends hnot]
    exact hone (m + 1) (Nat.le_succ m)

/-- The last of `n` released samples: the debouncer looks for a press again. -/
theorem release (h : Tracks n samples m returned d) (hx : samples[m]? = some false) (hd : d.armed = false)
    (hfull : n ≤ d.stable.val + 1) :
    Tracks n samples (m + 1) (returned ++ [false]) { d with stable := 0, armed := true } := by
  have hn : 1 ≤ n := Nat.lt_of_le_of_lt (Nat.zero_le _) h.lt
  have hends : Ends samples false n m := by
    rw [ends_iff, trailing_succ_of_eq hx]
    rw [h.stable, hd] at hfull
    exact hfull
  have hlen : (returned ++ [false]).length = m + 1 := by simp [h.length]
  refine ⟨h.stableSamples, hlen, ?_, hn, fun k hf => ?_, fun _ k hk hf => ?_, fun ha => absurd ha.symm Bool.false_ne_true,
    h.exact_append fun he => ?_⟩
  · exact (trailing_succ_of_ne (by simp [hx])).symm
  · exact h.pressed k ((fired_append.mp hf).resolve_right fun hnew => Bool.false_ne_true hnew.2)
  · rw [since_succ_of_ends hends] at hk
    have hlt := fired_lt hf
    omega
  · simp [he.getElem? hn] at hx

/-- One sample: the counter does not overflow, and the invariant is kept. -/
theorem step (h : Tracks n samples m returned d) (hx : samples[m]? = some x) :
    ∃ r d', d.sample x = some (r, d') ∧ Tracks n samples (m + 1) (returned ++ [r]) d' := by
  unfold Debouncer.sample
  by_cases ha : x ≠ d.armed
  · exact ⟨false, _, if_pos ha, h.reset hx ha⟩
  · obtain rfl : x = d.armed := by simpa using ha
    have hinc := U8.increment_of_lt (h.stableSamples ▸ h.lt) d.stableSamples.isLt
    rw [if_neg ha, hinc]
    dsimp only
    by_cases hlt : (⟨d.stable.val + 1, by have := h.lt; have := h.stableSamples; omega⟩ : U8) < d.stableSamples
    · exact ⟨false, _, if_pos hlt, h.count hx rfl (h.stableSamples ▸ hlt)⟩
    · have hfull : n ≤ d.stable.val + 1 := by
        rw [← h.stableSamples]
        exact Nat.le_of_not_lt hlt
      refine ⟨d.armed, _, if_neg hlt, ?_⟩
      cases hd : d.armed with
      | true => exact h.press (hd ▸ hx) hd hfull
      | false => exact h.release (hd ▸ hx) hd hfull

end Tracks

/-- After any number of samples. -/
theorem tracks_feed {n : U8} (hn : 1 ≤ n.val) (samples : List Bool) {m : Nat} (hm : m ≤ samples.length) :
    ∃ returned d, (Debouncer.new n).feed (samples.take m) = some (returned, d) ∧ Tracks n.val samples m returned d := by
  induction m with
  | zero =>
    exact ⟨[], _, rfl, rfl, rfl, rfl, hn, fun k hf => absurd (fired_lt hf) (Nat.not_lt_zero k),
      fun _ k _ hf => absurd (fired_lt hf) (Nat.not_lt_zero k), fun hd => absurd hd.symm Bool.false_ne_true,
      fun i hi => absurd hi (Nat.not_lt_zero i)⟩
  | succ m ih =>
    obtain ⟨returned, d, hfeed, h⟩ := ih (by omega)
    have hx : samples[m]? = some samples[m] := List.getElem?_eq_getElem hm
    obtain ⟨r, d', hs, h'⟩ := h.step hx
    refine ⟨returned ++ [r], d', ?_, h'⟩
    rw [List.take_add_one, hx]
    exact Debouncer.feed_append hfeed hs

end DebounceAux

open DebounceAux

/-- The debouncer is exact. For every number of stable samples from 1 to 255 and every sequence of samples: the counter never overflows;
an event is returned only for the last of that many consecutive pressed samples; and for every sample that is the last of that many
consecutive pressed ones, exactly one event was returned for a sample after the most recent end of that many consecutive released ones (or
since the start if there was none) and up to and including it. -/
theorem debouncer_exact (stableSamples : U8) (h : 1 ≤ stableSamples.val) (samples : List Bool) :
    ∃ returned d, (Debouncer.new stableSamples).feed samples = some (returned, d) ∧ returned.length = samples.length ∧
      (∀ i, returned[i]? = some true → Ends samples true stableSamples.val i) ∧
      ∀ i, Ends samples true stableSamples.val i →
        ∃! k, since samples false stableSamples.val i ≤ k ∧ k ≤ i ∧ returned[k]? = some true := by
  obtain ⟨returned, d, hfeed, ht⟩ := tracks_feed h samples (Nat.le_refl samples.length)
  rw [List.take_length] at hfeed
  refine ⟨returned, d, hfeed, ht.length, ht.pressed, fun i he => ht.exact i ?_ he⟩
  obtain ⟨hi, -⟩ := List.getElem?_eq_some_iff.mp (he.getElem? h)
  exact hi

/-- Bounces on a press and on its release, with five stable samples: one event for each press. -/
theorem debouncer_exact_five :
    let samples := [true, false, true, true, false, true, true, true, true, true, false, true, false, false, false, false, false,
      true, true, true, true, true]
    ∃ returned d, (Debouncer.new 5).feed samples = some (returned, d) ∧ returned.length = samples.length ∧
      (∀ i, returned[i]? = some true → Ends samples true 5 i) ∧
      ∀ i, Ends samples true 5 i → ∃! k, since samples false 5 i ≤ k ∧ k ≤ i ∧ returned[k]? = some true := by
  intro samples
  exact debouncer_exact 5 (by decide) samples

/-- The events of that sequence. -/
example :
    ((Debouncer.new 5).feed [true, false, true, true, false, true, true, true, true, true, false, true, false, false, false, false,
      false, true, true, true, true, true]).map (fun fed => (List.range 22).filter fun k => fed.1[k]? = some true) =
      some [9, 21] := by decide

end GateLink
