import GateLink.Bench
import GateLink.Config
import GateLink.Lib.Estimate

/-!
# What a run does to the estimate and to the exact position

Both are measured from the end that the run goes to, so that opening and closing are one case: what is left of the way gets shorter by
the distance of the run, rounded down for the estimate, and not below zero (`after_remaining`, `after_rest`).
-/

namespace GateLink

/-! ## The way to an end -/

theorem Direction.rest_other (d : Direction) (x : ExactPosition) : d.other.rest x = 255 - d.rest x := by
  cases d with
  | opening =>
    show (x : ℚ) = 255 - (255 - x)
    ring
  | closing => rfl

theorem Motor.remaining_other {leaf : Leaf} (m : Motor leaf) (d : Direction) : m.remaining d.other = 255 - m.remaining d := by
  have hlt := m.position.isLt
  cases d with
  | opening =>
    show m.position.val = 255 - (255 - m.position.val)
    omega
  | closing => rfl

@[simp] theorem Direction.towards_zero (d : Direction) : d.towards 0 = 0 := by
  cases d with
  | opening => rfl
  | closing => exact neg_zero

theorem Direction.towards_other (d : Direction) (x : ℚ) : d.other.towards x = -d.towards x := by
  cases d with
  | opening => rfl
  | closing => exact (neg_neg x).symm

@[simp] theorem Direction.towards_towards (d : Direction) (x : ℚ) : d.towards (d.towards x) = x := by
  cases d with
  | opening => rfl
  | closing => exact neg_neg x

namespace Bench

variable {leaf : Leaf} {b : Bench leaf} {e : Event} {r : Run}

theorem distance_nonneg (b : Bench leaf) (r : Run) : 0 ≤ b.distance r := by
  unfold distance
  positivity

theorem margin_nonneg (b : Bench leaf) (d : Direction) : 0 ≤ b.margin d := by
  unfold margin
  positivity

/-- The drift is how far the estimate is ahead or behind, whichever end the way is measured to. -/
theorem drift_eq (b : Bench leaf) (d : Direction) : b.drift = |b.lead d| := by
  cases d with
  | opening =>
    have hle : b.motor.position.val ≤ 255 := Nat.le_of_lt_succ b.motor.position.isLt
    show |(b.motor.position.val : ℚ) - b.exact| = |255 - b.exact - ((255 - b.motor.position.val : Nat) : ℚ)|
    rw [Nat.cast_sub hle]
    congr 1
    push_cast
    ring
  | closing => exact abs_sub_comm _ _

/-- At boot there is no drift. -/
theorem new_drift (leaf : Leaf) (s : MotorSettings) (controls : Controls)
    (timed : ∀ d, 1 ≤ asMillis ((Motor.new leaf s (Board.new controls)).1.fullDuration d)) :
    (Bench.new leaf s controls timed).drift = 0 := by
  have hle : (s.initialPosition.val : ℚ) ≤ 255 := by exact_mod_cast Nat.le_of_lt_succ s.initialPosition.isLt
  have hexact : ((Bench.new leaf s controls timed).exact : ℚ) = s.initialPosition.val := by
    show max 0 (min 255 (s.initialPosition.val : ℚ)) = s.initialPosition.val
    rw [min_eq_right hle, max_eq_right (Nat.cast_nonneg _)]
  unfold drift
  rw [hexact]
  show |(s.initialPosition.val : ℚ) - s.initialPosition.val| = 0
  rw [sub_self, abs_zero]

/-! ## One event -/

theorem ending_eq_none (h : b.ending = none) : b.motor.state = .idle := by
  unfold ending at h
  cases hs : b.motor.state with
  | idle => rfl
  | running d since =>
    rw [hs] at h
    cases h

/-- Settling a motor that has run moves the estimate by what is credited for the run. -/
theorem stop_position_of_ending (h : b.ending = some r) :
    (b.motor.stop b.board).1.position = b.motor.moveBy r.direction (b.motor.travelled r.direction r.elapsed) := by
  unfold ending at h
  cases hs : b.motor.state with
  | idle =>
    rw [hs] at h
    cases h
  | running d since =>
    rw [hs] at h
    obtain rfl := Option.some.inj h
    have hboard : b.motor.settle b.board = b.motor.stop b.board := rfl
    rw [hboard, Motor.stop_of_running hs]

/-- An event that ends no run leaves the estimate alone. -/
theorem act_position_of_none (h : b.ended e = none) : (b.act e).1.position = b.motor.position := by
  have hstop (hending : b.ending = none) : (b.motor.stop b.board).1.position = b.motor.position := by
    rw [Motor.stop_of_idle (ending_eq_none hending)]
  cases e with
  | start d => exact hstop h
  | stop => exact hstop h
  | wait sleep lag => rfl

theorem act_position (h : b.ended e = some r) :
    (b.act e).1.position = b.motor.moveBy r.direction (b.motor.travelled r.direction r.elapsed) := by
  cases e with
  | start d => exact stop_position_of_ending h
  | stop => exact stop_position_of_ending h
  | wait sleep lag => cases h

/-- What is credited for a run is its distance, rounded down, and at most the whole way. -/
theorem travelled_eq (b : Bench leaf) (r : Run) : b.motor.travelled r.direction r.elapsed = min ⌊b.distance r⌋₊ 255 := by
  have hcast : b.distance r = ((asMillis r.elapsed * 255 : Nat) : ℚ) / (asMillis (b.motor.fullDuration r.direction) : Nat) := by
    unfold distance
    push_cast
    ring
  unfold Motor.travelled
  rw [hcast, Nat.floor_div_eq_div, Nat.max_eq_left (b.timed r.direction)]

/-- The estimated rest of the way after a run. -/
theorem after_remaining (h : b.ended e = some r) :
    (b.after e).motor.remaining r.direction = b.motor.remaining r.direction - ⌊b.distance r⌋₊ := by
  have hle := b.motor.remaining_le r.direction
  have hmoved : (b.after e).motor.remaining r.direction = b.motor.remaining r.direction - min ⌊b.distance r⌋₊ 255 := by
    rw [← travelled_eq]
    exact Motor.remaining_of_moveBy b.motor (act_position h)
  omega

/-- The exact rest of the way after a run. -/
theorem after_rest (h : b.ended e = some r) :
    r.direction.rest (b.after e).exact = max (r.direction.rest b.exact - b.distance r) 0 := by
  have hexact : (b.after e).exact = b.moved r := by
    unfold after
    simp only [h]
  have hd := b.distance_nonneg r
  rw [hexact]
  unfold moved
  cases r.direction with
  | opening =>
    have hpos : 0 ≤ min 255 ((b.exact : ℚ) + b.distance r) := le_min (by norm_num) (add_nonneg b.exact.2.1 hd)
    show 255 - max 0 (min 255 ((b.exact : ℚ) + b.distance r)) = max (255 - (b.exact : ℚ) - b.distance r) 0
    rw [max_eq_right hpos, ← max_sub_sub_left, sub_self, max_comm, sub_sub]
  | closing =>
    have hle : (b.exact : ℚ) - b.distance r ≤ 255 := le_trans (sub_le_self _ hd) b.exact.2.2
    show max 0 (min 255 ((b.exact : ℚ) - b.distance r)) = max ((b.exact : ℚ) - b.distance r) 0
    rw [min_eq_right hle, max_comm]

/-- An event that ends no run leaves both as they are. -/
theorem after_exact_of_none (h : b.ended e = none) : (b.after e).exact = b.exact := by
  unfold after
  simp only [h]

theorem after_position_of_none (h : b.ended e = none) : (b.after e).motor.position = b.motor.position := act_position_of_none h

theorem after_margin (b : Bench leaf) (e : Event) (d : Direction) : (b.after e).margin d = b.margin d := by
  have hs : b.motor.SameSettings (b.after e).motor := b.act_settings e
  unfold margin
  rw [hs.fullDuration, hs.endStopOverrun]

end Bench

/-! ## Leaf A of the installation -/

theorem leafA_timed {position : U8} (d : Direction) :
    1 ≤ asMillis ((Motor.new .a (settingsOf leafA position) (Board.new Controls.new)).1.fullDuration d) := by
  cases d <;> exact (by decide : 1 ≤ asMillis (fromSecs 15))

def Bench.leafA (position : U8) : Bench .a := Bench.new .a (settingsOf GateLink.leafA position) Controls.new leafA_timed

end GateLink
