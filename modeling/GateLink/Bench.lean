import GateLink.Lemmas.Timing
import Mathlib

/-!
# A motor next to its leaf

A motor on a board, started and stopped in any order and at any times, and next to it the exact position of its leaf. The motor's position
is an estimate that is rounded with every run; the exact position is what a leaf has that moves at a steady speed and stands at its end
stops: 255 times the part of the full duration that the relay was energized for, for every run, and never beyond the ends.
-/

namespace GateLink

open Machine

/-- A position that is not rounded. -/
abbrev ExactPosition : Type := Set.Icc (0 : ℚ) 255

/-- The end stops. -/
def ExactPosition.clamp (x : ℚ) : ExactPosition := Set.projIcc 0 255 (by norm_num) x

/-- How far a position is from the end of a direction. -/
def Direction.rest (d : Direction) (x : ExactPosition) : ℚ :=
  match d with
  | .opening => 255 - x
  | .closing => x

/-- A distance that is positive towards open, seen the way of a direction. -/
def Direction.towards (d : Direction) (x : ℚ) : ℚ :=
  match d with
  | .opening => x
  | .closing => -x

/-- A run that is over: which relay was energized, and for how long. -/
structure Run where
  direction : Direction
  elapsed : Duration
  deriving DecidableEq, Repr

/-- A motor, its board and the exact position of its leaf; a full run takes at least a millisecond in both directions. -/
structure Bench (leaf : Leaf) where
  motor : Motor leaf
  board : Board
  exact : ExactPosition
  timed : ∀ d, 1 ≤ asMillis (motor.fullDuration d)

namespace Bench

/-- What is done to the motor, and the time that passes. -/
inductive Event where
  | start (d : Direction)
  | stop
  | wait (sleep : Duration) (lag : Nat → Duration)

variable {leaf : Leaf}

/-- At boot the exact position is the one restored from flash. -/
def new (leaf : Leaf) (s : MotorSettings) (controls : Controls)
    (timed : ∀ d, 1 ≤ asMillis ((Motor.new leaf s (Board.new controls)).1.fullDuration d)) : Bench leaf where
  motor := (Motor.new leaf s (Board.new controls)).1
  board := (Motor.new leaf s (Board.new controls)).2
  exact := .clamp s.initialPosition.val
  timed := timed

/-- The run that ends when the motor is settled. -/
def ending (b : Bench leaf) : Option Run :=
  match b.motor.state with
  | .idle => none
  | .running d since => some { direction := d, elapsed := (b.motor.settle b.board).2.now - since }

/-- The run that an event ends: a start and a stop settle the motor first. -/
def ended (b : Bench leaf) : Event → Option Run
  | .start _ => b.ending
  | .stop => b.ending
  | .wait _ _ => none

/-- The distance of a run. -/
def distance (b : Bench leaf) (r : Run) : ℚ :=
  255 * asMillis r.elapsed / asMillis (b.motor.fullDuration r.direction)

/-- The exact position after a run. -/
def moved (b : Bench leaf) (r : Run) : ExactPosition :=
  match r.direction with
  | .opening => .clamp (b.exact + b.distance r)
  | .closing => .clamp (b.exact - b.distance r)

/-- What an event does to the motor and the board. -/
def act (b : Bench leaf) : Event → Motor leaf × Board
  | .start d => b.motor.start d b.board
  | .stop => b.motor.stop b.board
  | .wait sleep lag => (b.motor, b.board.wait sleep lag)

theorem act_settings (b : Bench leaf) (e : Event) : b.motor.SameSettings (b.act e).1 := by
  cases e with
  | start d => exact b.motor.start_settings d b.board
  | stop => exact b.motor.stop_settings b.board
  | wait sleep lag => exact .refl _

def after (b : Bench leaf) (e : Event) : Bench leaf where
  motor := (b.act e).1
  board := (b.act e).2
  exact :=
    match b.ended e with
    | none => b.exact
    | some r => b.moved r
  timed := fun d => by rw [(b.act_settings e).fullDuration d]; exact b.timed d

/-- How many runs an event ends. -/
def runs (b : Bench leaf) (e : Event) : Nat :=
  match b.ended e with
  | none => 0
  | some _ => 1

/-- How far the estimate is from the exact position. -/
def drift (b : Bench leaf) : ℚ := |(b.motor.position.val : ℚ) - b.exact|

/-- The leaf is at the end stop of a direction, and so is the estimate. -/
def AtEnd (b : Bench leaf) (d : Direction) : Prop := b.motor.position = d.endPosition ∧ d.rest b.exact = 0

/-- How far the estimate is ahead of the leaf, on the way to the end of a direction. -/
def lead (b : Bench leaf) (d : Direction) : ℚ := d.rest b.exact - b.motor.remaining d

/-- The margin for the error of the estimate at the end of a direction: what the leaf travels in the overrun, or in the time of one unit. -/
def margin (b : Bench leaf) (d : Direction) : ℚ :=
  255 * max ((b.motor.endStopOverrun : ℚ) / ticksPerMilli) (asMillis (b.motor.fullDuration d) / 255) / asMillis (b.motor.fullDuration d)

end Bench

end GateLink
