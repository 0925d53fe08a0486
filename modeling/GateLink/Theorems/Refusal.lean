import GateLink.Lemmas.Bench

/-!
# When a leaf is refused as already at its end

`run_time` refuses a leaf whose estimate is at the end. What `settle` rounds off is lost, run after run, and the overrun that is the margin
for the error of the estimate is not compared with it: a leaf that is opened again and again for less than one unit stays at 0 for the
estimate, however far it has come (`opened_but_refused`).

A ledger of the runs adds up what they travelled without being credited for it. Refusals are right in every state of a run exactly if the
ledger is within the margin whenever a run brings the estimate to an end or leaves it there (`refused_at_end_iff`).
-/

namespace GateLink

open Machine

namespace Bench

variable {leaf : Leaf}

/-- A leaf with nothing left to run is at its end, but for the margin. -/
def RefusedAtEnd (b : Bench leaf) : Prop := ∀ d, b.motor.runTime d = none → d.rest b.exact ≤ b.margin d

/-! ## The ledger -/

/-- What is credited for a run: the whole units of its distance, and no more of them than are left of the way. -/
def credited (b : Bench leaf) (r : Run) : Nat := min ⌊b.distance r⌋₊ (b.motor.remaining r.direction)

/-- What a run travels without being credited for it: the fraction of a unit that is rounded off, and what it goes on for beyond the
estimated end. -/
def uncredited (b : Bench leaf) (r : Run) : ℚ := b.distance r - b.credited r

/-- The ledger after a run. It is the sum of what the runs in the one direction were not credited for, less that of the runs in the other,
since the leaf last stood at an end stop: a leaf that is not credited for as much as the estimate has left to go stands there. -/
def entered (b : Bench leaf) (ledger : ℚ) (r : Run) : ℚ :=
  r.direction.towards (min (r.direction.towards ledger + b.uncredited r) (b.motor.remaining r.direction - b.credited r))

/-- The ledger after an event. -/
def enter (b : Bench leaf) (ledger : ℚ) (e : Event) : ℚ :=
  match b.ended e with
  | none => ledger
  | some r => b.entered ledger r

/-- A run keeps within the margin: if it brings the estimate to the end, the runs have taken the leaf no further back without being
credited than the margin there; and if it is too short to take the estimate off the other end, no further from it. -/
def WithinMargin (b : Bench leaf) (ledger : ℚ) (r : Run) : Prop :=
  ((b.motor.remaining r.direction : ℚ) ≤ b.distance r → r.direction.other.towards (b.entered ledger r) ≤ b.margin r.direction) ∧
  (b.motor.remaining r.direction = 255 → b.distance r < 1 →
    r.direction.towards (b.entered ledger r) ≤ b.margin r.direction.other)

/-- The comparison of rationals decides it. -/
instance (b : Bench leaf) (ledger : ℚ) (r : Run) : Decidable (b.WithinMargin ledger r) := inferInstanceAs (Decidable (_ ∧ _))

/-- An event that ends a run ends one that keeps within the margin. -/
def Covers (s : Bench leaf × ℚ) (e : Event) : Prop :=
  match s.1.ended e with
  | none => True
  | some r => s.1.WithinMargin s.2 r

/-- The run that an event ends decides it. -/
instance decidableCovers (s : Bench leaf × ℚ) (e : Event) : Decidable (Covers s e) := by
  unfold Covers
  split <;> infer_instance

/-- The ledger is kept right: it is how far the leaf is ahead of the estimate. -/
def Balances (b : Bench leaf) (ledger : ℚ) : Prop := ∀ d : Direction, d.towards ledger = b.motor.remaining d - d.rest b.exact

/-- It is enough to look one way. -/
theorem balances_of {b : Bench leaf} {ledger : ℚ} (d : Direction) (h : d.towards ledger = b.motor.remaining d - d.rest b.exact) :
    b.Balances ledger := by
  have hother : d.other.towards ledger = b.motor.remaining d.other - d.other.rest b.exact := by
    have hle := b.motor.remaining_le d
    rw [Direction.towards_other, h, Motor.remaining_other, Direction.rest_other, Nat.cast_sub hle]
    push_cast
    ring
  intro d'
  cases d <;> cases d' <;> first | exact h | exact hother

/-- What is left for the estimate after a run. -/
theorem after_remaining_credited {b : Bench leaf} {e : Event} {r : Run} (h : b.ended e = some r) :
    ((b.after e).motor.remaining r.direction : ℚ) = b.motor.remaining r.direction - b.credited r := by
  have hsub : (b.after e).motor.remaining r.direction = b.motor.remaining r.direction - b.credited r := by
    rw [after_remaining h, credited]
    omega
  have hle : b.credited r ≤ b.motor.remaining r.direction := Nat.min_le_right _ _
  rw [hsub, Nat.cast_sub hle]

/-- Every run is entered into the ledger. -/
theorem balances_after {b : Bench leaf} {ledger : ℚ} (hb : b.Balances ledger) (e : Event) : (b.after e).Balances (b.enter ledger e) := by
  unfold enter
  cases he : b.ended e with
  | none =>
    intro d
    have hremaining : (b.after e).motor.remaining d = b.motor.remaining d := by
      unfold Motor.remaining
      rw [after_position_of_none he]
    rw [hremaining, after_exact_of_none he]
    exact hb d
  | some r =>
    refine balances_of r.direction ?_
    show r.direction.towards (b.entered ledger r) = _
    rw [entered, Direction.towards_towards, hb, after_remaining_credited he, after_rest he, uncredited, ← min_sub_sub_left, sub_zero]
    congr 1
    ring

/-- The refusal, in what is left of the way. -/
theorem refusedAtEnd_iff (b : Bench leaf) (d : Direction) :
    b.RefusedAtEnd ↔
      (b.motor.remaining d = 0 → d.rest b.exact ≤ b.margin d) ∧
      (b.motor.remaining d = 255 → 255 - d.rest b.exact ≤ b.margin d.other) := by
  have hle := b.motor.remaining_le d
  have hother : b.motor.runTime d.other = none ↔ b.motor.remaining d = 255 := by
    rw [Motor.runTime_eq_none_iff, Motor.remaining_other]
    omega
  have hboth : b.RefusedAtEnd ↔
      (b.motor.runTime d = none → d.rest b.exact ≤ b.margin d) ∧
      (b.motor.runTime d.other = none → d.other.rest b.exact ≤ b.margin d.other) := by
    refine ⟨fun h => ⟨h d, h d.other⟩, fun h d' => ?_⟩
    cases d <;> cases d' <;> first | exact h.1 | exact h.2
  rw [hboth, hother, Motor.runTime_eq_none_iff, Direction.rest_other]

/-- After a run the refusals are right exactly if the run kept within the margin. -/
theorem refusedAtEnd_after_iff {b : Bench leaf} {ledger : ℚ} (hb : b.Balances ledger) {e : Event} {r : Run} (h : b.ended e = some r) :
    (b.after e).RefusedAtEnd ↔ b.WithinMargin ledger r := by
  have hledger : r.direction.towards (b.entered ledger r) = (b.after e).motor.remaining r.direction - r.direction.rest (b.after e).exact := by
    have hafter := balances_after hb e r.direction
    simpa only [enter, h] using hafter
  rw [refusedAtEnd_iff _ r.direction, after_margin, after_margin]
  unfold WithinMargin
  refine and_congr ?_ ?_
  · rw [Direction.towards_other, hledger, after_remaining h, Estimate.sub_floor_eq_zero_iff _ (b.distance_nonneg r)]
    refine imp_congr_right fun hend => ?_
    have hnone := (Estimate.sub_floor_eq_zero_iff _ (b.distance_nonneg r)).mpr hend
    rw [hnone, Nat.cast_zero, zero_sub, neg_neg]
  · have hstays : (b.after e).motor.remaining r.direction = 255 ↔ b.motor.remaining r.direction = 255 ∧ b.distance r < 1 := by
      have hle := b.motor.remaining_le r.direction
      rw [after_remaining h, ← Nat.floor_eq_zero]
      omega
    rw [← and_imp, ← hstays]
    refine imp_congr_right fun hall => ?_
    rw [hledger, hall, Nat.cast_ofNat]

/-- An event that ends no run changes nothing about the refusals. -/
theorem refusedAtEnd_after_of_none {b : Bench leaf} {e : Event} (h : b.ended e = none) :
    (b.after e).RefusedAtEnd ↔ b.RefusedAtEnd := by
  unfold RefusedAtEnd
  refine forall_congr' fun d => ?_
  rw [Motor.runTime_eq_none_iff, Motor.runTime_eq_none_iff, Motor.remaining_eq_zero_iff, Motor.remaining_eq_zero_iff,
    after_position_of_none h, after_exact_of_none h, after_margin]

/-- An event keeps the refusals right exactly if a run that it ends keeps within the margin. -/
theorem refusedAtEnd_after (b : Bench leaf) (ledger : ℚ) (e : Event) (hb : b.Balances ledger) (href : b.RefusedAtEnd) :
    (b.after e).RefusedAtEnd ↔ Covers (b, ledger) e := by
  unfold Covers
  cases he : b.ended e with
  | none => exact iff_of_true ((refusedAtEnd_after_of_none he).mpr href) trivial
  | some r => exact refusedAtEnd_after_iff hb he

/-- At boot there is nothing to enter. -/
theorem new_balances (leaf : Leaf) (s : MotorSettings) (controls : Controls)
    (timed : ∀ d, 1 ≤ asMillis ((Motor.new leaf s (Board.new controls)).1.fullDuration d)) :
    (Bench.new leaf s controls timed).Balances 0 := by
  refine balances_of .closing ?_
  have hdrift := Bench.new_drift leaf s controls timed
  rw [Bench.drift_eq _ .closing, abs_eq_zero, Bench.lead, sub_eq_zero] at hdrift
  rw [hdrift, sub_self]
  exact neg_zero

end Bench

/-- Refusals are right exactly if every run keeps within the margin. For every motor whose full runs take at least a millisecond, from every
restored position and for all starts and stops at any times: in every state up to then, a leaf with nothing left to run in a direction is
no further from that end than the margin, if and only if the ledger of the runs, which is empty at boot, kept within it at the end of each
run that brought the estimate to an end or left it there. -/
theorem refused_at_end_iff (leaf : Leaf) (s : MotorSettings) (controls : Controls)
    (timed : ∀ d, 1 ≤ asMillis ((Motor.new leaf s (Board.new controls)).1.fullDuration d)) (events : List Bench.Event) :
    (∀ before later, events = before ++ later → (run Bench.after (Bench.new leaf s controls timed) before).RefusedAtEnd) ↔
      Allowed (noting Bench.after Bench.enter) Bench.Covers (Bench.new leaf s controls timed, 0) events := by
  have hbalances := Bench.new_balances leaf s controls timed
  have hnew : (Bench.new leaf s controls timed).RefusedAtEnd := by
    intro d hd
    have hrest := hbalances d
    rw [(Motor.runTime_eq_none_iff _ d).mp hd, Direction.towards_zero, Nat.cast_zero, zero_sub, zero_eq_neg] at hrest
    rw [hrest]
    exact Bench.margin_nonneg _ d
  exact forall_prefix_iff_allowed_noting (fun _ _ e _ hb => Bench.balances_after hb e)
    (fun b ledger e _ => Bench.refusedAtEnd_after b ledger e) hnew hbalances fun _ _ => trivial

/-- Opened for 58 milliseconds, again and again. -/
def shortRuns (n : Nat) : List Bench.Event :=
  (List.replicate n [.start .opening, .wait (fromMillis 58) steady, .stop]).flatten

/-- Seventeen of them are within the overrun of the installation. -/
theorem refused_after_seventeen : (run Bench.after (Bench.leafA 0) (shortRuns 17)).RefusedAtEnd :=
  (refused_at_end_iff .a (settingsOf leafA 0) Controls.new leafA_timed (shortRuns 17)).mpr (by decide +kernel) _ []
    (List.append_nil _).symm

/-- After eighteen such runs a leaf of the installation is further open than the overrun covers, and is refused as closed. -/
theorem opened_but_refused :
    (∀ d, 255 ≤ asMillis ((Bench.leafA 0).motor.fullDuration d)) ∧
      ¬(run Bench.after (Bench.leafA 0) (shortRuns 18)).RefusedAtEnd := by
  refine ⟨fun d => ?_, fun h => ?_⟩
  · cases d <;> exact (by decide : 255 ≤ asMillis (fromSecs 15))
  · have hrefused : (run Bench.after (Bench.leafA 0) (shortRuns 18)).motor.runTime .closing = none := by decide +kernel
    have hfar : ¬Direction.closing.rest (run Bench.after (Bench.leafA 0) (shortRuns 18)).exact ≤
        (run Bench.after (Bench.leafA 0) (shortRuns 18)).margin .closing := by decide +kernel
    exact hfar (h .closing hrefused)

end GateLink
