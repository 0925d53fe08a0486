import GateLink.Lemmas.Bench

/-!
# The drift of the estimate

The position is an estimate, and nothing corrects it but the end stops. It drifts by less than one unit with each run, in either direction,
because `settle` rounds off less than a unit and the saturation at the ends only brings the estimate and the exact position together
(`drift_after_lt`); so after a number of runs the drift is less than that number (`drift_lt_runs`).
-/

namespace GateLink

open Machine

namespace Bench

variable {leaf : Leaf}

/-- A run adds less than a unit to the drift. -/
theorem drift_after_lt {b : Bench leaf} {e : Event} {r : Run} (h : b.ended e = some r) : (b.after e).drift < b.drift + 1 := by
  rw [(b.after e).drift_eq r.direction, b.drift_eq r.direction]
  unfold lead
  rw [after_rest h, after_remaining h]
  exact Estimate.abs_sub_lt _ _ (b.distance_nonneg r)

/-- Nothing else adds to it. -/
theorem drift_after_of_none {b : Bench leaf} {e : Event} (h : b.ended e = none) : (b.after e).drift = b.drift := by
  unfold drift
  rw [after_position_of_none h, after_exact_of_none h]

/-- Between the estimate and the exact position are less units than runs were counted, or none at all. -/
def DriftWithin (b : Bench leaf) (n : Nat) : Prop := b.drift = 0 ∨ b.drift < n

theorem DriftWithin.after {b : Bench leaf} {n : Nat} (h : b.DriftWithin n) (e : Event) :
    (b.after e).DriftWithin (n + b.runs e) := by
  unfold runs
  cases he : b.ended e with
  | none =>
    unfold DriftWithin
    rw [drift_after_of_none he]
    exact h
  | some r =>
    have hlt : (b.after e).drift < b.drift + 1 := drift_after_lt he
    have hle : b.drift ≤ n := by
      rcases h with h | h
      · rw [h]
        exact Nat.cast_nonneg n
      · exact le_of_lt h
    refine Or.inr ?_
    push_cast
    exact lt_of_lt_of_le hlt (add_le_add_left hle 1)

/-- From a state without drift, the drift is less than the number of runs. -/
theorem drift_lt_of_drift_eq_zero {b : Bench leaf} (h : b.drift = 0) {events : List Event} (hn : 1 ≤ total after runs b events) :
    (run after b events).drift < total after runs b events := by
  have hrun : (run after b events).DriftWithin (0 + total after runs b events) :=
    run_counted (fun b e _ h => h.after e) (Or.inl h) events
  rw [Nat.zero_add] at hrun
  rcases hrun with h0 | hlt
  · rw [h0]
    exact Nat.cast_pos.mpr hn
  · exact hlt

theorem AtEnd.drift_eq_zero {b : Bench leaf} {d : Direction} (h : b.AtEnd d) : b.drift = 0 := by
  obtain ⟨hposition, hexact⟩ := h
  rw [b.drift_eq d, lead, hexact, Motor.remaining_of_position hposition, Nat.cast_zero, sub_zero, abs_zero]

/-- A run reaches the end stop if it is long enough for the estimate and for the leaf. -/
theorem after_atEnd_iff {b : Bench leaf} {e : Event} {r : Run} (h : b.ended e = some r) :
    (b.after e).AtEnd r.direction ↔
      (b.motor.remaining r.direction : ℚ) ≤ b.distance r ∧ r.direction.rest b.exact ≤ b.distance r := by
  unfold AtEnd
  rw [← Motor.remaining_eq_zero_iff, after_remaining h, after_rest h, Estimate.sub_floor_eq_zero_iff _ (b.distance_nonneg r),
    max_eq_right_iff, sub_nonpos]

end Bench

/-- The drift is less than the number of runs. For every motor whose full runs take at least a millisecond, from every restored position and
for all starts and stops at any times: after at least one run, the estimate differs from the exact position by less units than there were
runs. A run reaches the end stop in both exactly if it is long enough for both; then there is no difference, and runs are counted from
there. -/
theorem drift_lt_runs (leaf : Leaf) (s : MotorSettings) (controls : Controls)
    (timed : ∀ d, 1 ≤ asMillis ((Motor.new leaf s (Board.new controls)).1.fullDuration d)) (events : List Bench.Event) :
    let fresh := Bench.new leaf s controls timed
    let b := run Bench.after fresh events
    (1 ≤ total Bench.after Bench.runs fresh events → b.drift < total Bench.after Bench.runs fresh events) ∧
    ∀ e r, b.ended e = some r →
      ((b.after e).AtEnd r.direction ↔
        (b.motor.remaining r.direction : ℚ) ≤ b.distance r ∧ r.direction.rest b.exact ≤ b.distance r) ∧
      ((b.after e).AtEnd r.direction → (b.after e).drift = 0 ∧ ∀ later, 1 ≤ total Bench.after Bench.runs (b.after e) later →
        (run Bench.after (b.after e) later).drift < total Bench.after Bench.runs (b.after e) later) := by
  intro fresh b
  refine ⟨Bench.drift_lt_of_drift_eq_zero (Bench.new_drift leaf s controls timed), fun e r hr => ⟨Bench.after_atEnd_iff hr, ?_⟩⟩
  intro hend
  exact ⟨hend.drift_eq_zero, fun later => Bench.drift_lt_of_drift_eq_zero hend.drift_eq_zero⟩

/-- Leaf A of the installation, at 100, is opened for a while and then closed for a while: the estimate is off by less than two units. -/
theorem drift_lt_two :
    (run Bench.after (Bench.leafA 100) [.start .opening, .wait (fromMillis 700) steady, .start .closing, .wait (fromMillis 333) steady,
      .stop]).drift < 2 := by
  have h := (drift_lt_runs .a (settingsOf leafA 100) Controls.new leafA_timed [.start .opening, .wait (fromMillis 700) steady,
    .start .closing, .wait (fromMillis 333) steady, .stop]).1 (by decide +kernel)
  exact h

end GateLink
