import GateLink.System
import GateLink.Lib.Trace

/-!
# What the motor operations do

One lemma for each thing `start` and `stop` change, on the motor and on the board, and the frame around them: the controls and
the pins of the other leaf stay as they are. `Wired` ties the levels of a leaf's two pins to the state of its motor.
-/

namespace GateLink

@[simp] theorem Direction.other_ne (d : Direction) : d.other ≠ d := by cases d <;> nofun

namespace Motor

variable {leaf : Leaf}

/-- The relay a motor has energized. -/
def energized (m : Motor leaf) (d : Direction) : Bool :=
  match m.state with
  | .idle => false
  | .running d' _ => d' == d

/-- The levels of the leaf's pins are what the state of its motor says. -/
def Wired (m : Motor leaf) (levels : Pin → Bool) : Prop := ∀ d, levels ⟨leaf, d⟩ = m.energized d

theorem energized_idle {m : Motor leaf} (h : m.state = .idle) (d : Direction) : m.energized d = false := by
  simp [energized, h]

theorem energized_running {m : Motor leaf} {d : Direction} {t : Instant} (h : m.state = .running d t) (d' : Direction) :
    m.energized d' = (d == d') := by
  simp [energized, h]

/-! ## stop -/

theorem stop_of_idle {m : Motor leaf} (h : m.state = .idle) (bd : Board) : m.stop bd = (m, bd) := by
  simp [stop, settle, h]

/-- The board after a running motor is stopped: both relays are released, then the clock is read. -/
def released (m : Motor leaf) (bd : Board) : Board := ((bd.write m.openPin false).write m.closePin false).tick

theorem stop_of_running {m : Motor leaf} {d : Direction} {t : Instant} (h : m.state = .running d t) (bd : Board) :
    m.stop bd =
      ({ m with
          state := .idle
          stoppedAt := some (m.released bd).now
          position := m.moveBy d (m.travelled d ((m.released bd).now - t)) }, m.released bd) := by
  simp [stop, settle, h, released, Board.setLow]

@[simp] theorem stop_state (m : Motor leaf) (bd : Board) : (m.stop bd).1.state = .idle := by
  cases h : m.state with
  | idle => rw [stop_of_idle h]; exact h
  | running d t => rw [stop_of_running h]

@[simp] theorem stop_controls (m : Motor leaf) (bd : Board) : (m.stop bd).2.controls = bd.controls := by
  cases h : m.state with
  | idle => rw [stop_of_idle h]
  | running d t => rw [stop_of_running h]; rfl

@[simp] theorem stop_timing (m : Motor leaf) (bd : Board) : (m.stop bd).1.timing = m.timing := by
  cases h : m.state with
  | idle => rw [stop_of_idle h]
  | running d t => rw [stop_of_running h]

@[simp] theorem stop_endStopOverrun (m : Motor leaf) (bd : Board) :
    (m.stop bd).1.endStopOverrun = m.endStopOverrun := by
  cases h : m.state with
  | idle => rw [stop_of_idle h]
  | running d t => rw [stop_of_running h]

@[simp] theorem stop_reversePause (m : Motor leaf) (bd : Board) : (m.stop bd).1.reversePause = m.reversePause := by
  cases h : m.state with
  | idle => rw [stop_of_idle h]
  | running d t => rw [stop_of_running h]

/-- A stop leaves the pins of the other leaf alone. -/
theorem stop_levels_other (m : Motor leaf) (bd : Board) {p : Pin} (hp : p.leaf ≠ leaf) :
    (m.stop bd).2.levels p = bd.levels p := by
  cases h : m.state with
  | idle => rw [stop_of_idle h]
  | running d t =>
    have h1 : p ≠ m.openPin := fun e => hp (by rw [e]; rfl)
    have h2 : p ≠ m.closePin := fun e => hp (by rw [e]; rfl)
    rw [stop_of_running h]
    simp [released, Function.update_of_ne, h1, h2]

theorem Wired.stop {m : Motor leaf} {bd : Board} (h : m.Wired bd.levels) : (m.stop bd).1.Wired (m.stop bd).2.levels := by
  intro d
  rw [energized_idle (stop_state m bd)]
  cases hs : m.state with
  | idle =>
    rw [stop_of_idle hs]
    exact (h d).trans (energized_idle hs d)
  | running d' t =>
    rw [stop_of_running hs]
    cases d <;> simp [released, openPin, closePin, Function.update]

/-! ## start -/

/-- The board after an idle motor is started: the opposite relay is released, then this one is energized. -/
def started (_ : Motor leaf) (d : Direction) (bd : Board) : Board :=
  ((bd.write ⟨leaf, d.other⟩ false).write ⟨leaf, d⟩ true).tick

theorem start_of_idle {m : Motor leaf} (h : m.state = .idle) (d : Direction) (bd : Board) :
    m.start d bd = ({ m with state := .running d (m.started d bd).now }, m.started d bd) := by
  cases d <;> simp [start, settle, h, started, Board.setLow, Board.setHigh, openPin, closePin, Direction.other]

@[simp] theorem start_controls (m : Motor leaf) (d : Direction) (bd : Board) : (m.start d bd).2.controls = bd.controls := by
  have h : (m.settle bd).2.controls = bd.controls := m.stop_controls bd
  cases d <;> exact h

/-- A start leaves the pins of the other leaf alone. -/
theorem started_levels_other (m : Motor leaf) (d : Direction) (bd : Board) {p : Pin} (hp : p.leaf ≠ leaf) :
    (m.started d bd).levels p = bd.levels p := by
  have h (d' : Direction) : p ≠ ⟨leaf, d'⟩ := fun e => hp (by rw [e])
  simp [started, Function.update_of_ne, h]

theorem Wired.start {m : Motor leaf} {bd : Board} (d : Direction) :
    ({ m with state := .running d (m.started d bd).now } : Motor leaf).Wired (m.started d bd).levels := by
  intro d'
  cases d <;> cases d' <;> simp [energized, started, Function.update, Direction.other]

end Motor

/-! ## The same, for a leaf of the gate -/

namespace Gate

variable (g : Gate) (leaf : Leaf)

@[simp] theorem motor_setMotor_self (m : Motor leaf) : (g.setMotor leaf m).motor leaf = m := by cases leaf <;> rfl

@[simp] theorem setMotor_board (m : Motor leaf) : (g.setMotor leaf m).board = g.board := by cases leaf <;> rfl

@[simp] theorem setMotor_pending (m : Motor leaf) : (g.setMotor leaf m).pending = g.pending := by cases leaf <;> rfl

end Gate

end GateLink
