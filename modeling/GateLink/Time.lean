import Mathlib.Order.Basic

/-!
# Time

Instants and durations as `embassy_time` counts them, and the clock a task reads. Ticks are microseconds, the default rate
of `embassy_time` (1 MHz). Two readings taken one after the other, even within one poll of a task, may differ; a clock
therefore carries how much time passes before each thing the task does, and since that is a duration it cannot run backwards.
-/

namespace GateLink

/-- A point in time, in ticks since boot. -/
abbrev Instant : Type := Nat

/-- A span of time, in ticks. -/
abbrev Duration : Type := Nat

/-- Ticks in one millisecond. -/
def ticksPerMilli : Nat := 1000

/-- `Duration::as_millis`: whole milliseconds, rounded down. -/
def asMillis (d : Duration) : Nat := d / ticksPerMilli

/-- `Duration::from_millis`. -/
def fromMillis (ms : Nat) : Duration := ms * ticksPerMilli

/-- The clock a task runs by: the instant its latest action happened at, and how much time passes before each action to
come (a reading of the clock or a write to a pin). -/
structure Clock where
  now : Instant
  lag : Nat → Duration

/-- Time passes until the next action of the task. -/
def Clock.tick (c : Clock) : Clock := { now := c.now + c.lag 0, lag := fun n => c.lag (n + 1) }

/-- The lags of a poll that takes no time: every reading of the clock in it is the same. -/
def steady : Nat → Duration := fun _ => 0

theorem Clock.now_le_tick (c : Clock) : c.now ≤ c.tick.now := Nat.le_add_right _ _

/-- A clock with no lags stands still. -/
theorem Clock.tick_of_steady {c : Clock} (h : c.lag = steady) : c.tick = c := by
  obtain ⟨now, lag⟩ := c
  subst h
  rfl

end GateLink
