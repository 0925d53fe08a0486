import GateLink.System

/-!
# The warning light

The warning light task (`warning_light.rs`) as the state machine it is, and the two tasks together: the gate task, the warning light
task and the rest of the system share one set of controls and one clock, and the executor polls either task at any time, in any
order. The warning light can be polled before the gate task has run for the first time.

A `Timer` is pending on its first poll whatever the time, and ready once its deadline has come.
-/

namespace GateLink

open Machine (Turn)

/-- Where the warning light task stands when it is not running. -/
inductive LightAwait where
  /-- It was not polled before. -/
  | spawned
  /-- In `Timer::after(half_period)`, with the deadline of the timer. -/
  | timer (deadline : Instant)
  /-- In `warning_light_changed`. -/
  | changed
  deriving DecidableEq, Repr

/-- A write to the pin of the lamp, as an observer notes it: the level, when, the level before and the controls at that moment. -/
structure LampWrite where
  level : Bool
  time : Instant
  before : Bool
  controls : Controls

/-- The write switches the lamp on. -/
def LampWrite.SwitchesOn (w : LampWrite) : Prop := w.level = true ∧ w.before = false

/-- The warning light task: its local variable, its pin and where it stands. `writes` is what an observer notes, the newest first. -/
structure WarningLight where
  halfPeriod : Duration
  lit : Bool
  pin : Bool
  await : LightAwait
  writes : List LampWrite

/-- The warning light with the board it works on. -/
abbrev WarningLight.On : Type := WarningLight × Board

namespace WarningLight

/-- `warning_light`, before its first poll. The pin was created low. -/
def new (halfPeriod : Duration) : WarningLight where
  halfPeriod := halfPeriod
  lit := false
  pin := false
  await := .spawned
  writes := []

/-- `set_state` and `set_low` of the pin. -/
def setState (l : WarningLight) (level : Bool) (bd : Board) : WarningLight :=
  { l with pin := level, writes := { level := level, time := bd.now, before := l.pin, controls := bd.controls } :: l.writes }

/-- The loop of `warning_light`, from its top to its next await. The clock is read once in it, by `Timer::after`; nothing else runs
between the write to the pin and that reading, so that is the time the write is noted with. -/
def top (l : WarningLight) (bd : Board) : Turn On :=
  if bd.controls.warningLightActive then
    let lit := !l.lit
    let bd := bd.tick
    .halt ({ { l with lit := lit }.setState lit bd with await := .timer (bd.now + l.halfPeriod) }, bd)
  else .again ({ { l with lit := false }.setState false bd with await := .changed }, bd)

/-- `light_changed.wait()` takes the signal. -/
def takeLightChanged (bd : Board) : Board := bd.modify ({ · with lightChanged := none })

/-- One turn of the task: polls what it waits on and, if that is ready, runs on to the next await. -/
def turn (s : On) : Turn On :=
  match s.1.await with
  | .spawned => s.1.top s.2
  | .timer deadline => if deadline ≤ s.2.tick.now then s.1.top s.2.tick else .halt (s.1, s.2.tick)
  | .changed =>
    match s.2.controls.lightChanged with
    | some () => s.1.top (takeLightChanged s.2)
    | none => .halt s

/-- What the turns of a poll can use up: the signal, and whatever else the task waits on. -/
def work (s : On) : Nat := s.2.controls.lightChanged.isSome.toNat + (decide (s.1.await ≠ .changed)).toNat

/-- One poll of the task: it runs until it is suspended. -/
def poll (s : On) : On := Machine.loop turn (work s + 1) s

end WarningLight

/-- The gate task as the executor sees it: it builds the gate when it is polled for the first time. -/
inductive GateTask where
  | spawned (bd : Board)
  | started (t : Task)

namespace GateTask

def board : GateTask → Board
  | .spawned bd => bd
  | .started t => t.gate.board

/-- A change to the board while the task sleeps. -/
def onBoard (f : Board → Board) : GateTask → GateTask
  | .spawned bd => .spawned (f bd)
  | .started t => .started { t with gate := { t.gate with board := f t.gate.board } }

end GateTask

/-- The gate task when it has built the gate, on the board as it is then. -/
def Board.boot (bd : Board) (a b : MotorSettings) (initialWindLocked : Bool) : Task :=
  let ma := Motor.new .a a bd
  let mb := Motor.new .b b ma.2
  Gate.new mb.2 ma.1 mb.1 initialWindLocked

/-- The tasks that share the controls, and what the gate is built from. -/
structure Tasks where
  a : MotorSettings
  b : MotorSettings
  initialWindLocked : Bool
  gate : GateTask
  light : WarningLight

namespace Tasks

def controls (s : Tasks) : Controls := s.gate.board.controls

/-- Something happens: a call on the controls, or a poll of one of the tasks after some time, with its lags. -/
inductive Event where
  | call (c : Call)
  | gate (sleep : Duration) (lag : Nat → Duration)
  | light (sleep : Duration) (lag : Nat → Duration)

/-- Time passes while the tasks sleep. -/
def wait (s : Tasks) (sleep : Duration) (lag : Nat → Duration) : Tasks :=
  { s with gate := s.gate.onBoard (·.wait sleep lag) }

def call (s : Tasks) (c : Call) : Tasks := { s with gate := s.gate.onBoard (·.modify c.apply) }

/-- Polls the gate task. -/
def pollGate (s : Tasks) : Tasks :=
  match s.gate with
  | .spawned bd => { s with gate := .started (bd.boot s.a s.b s.initialWindLocked).poll }
  | .started t => { s with gate := .started t.poll }

/-- Polls the warning light task. -/
def pollLight (s : Tasks) : Tasks :=
  let polled := WarningLight.poll (s.light, s.gate.board)
  { s with gate := s.gate.onBoard fun _ => polled.2, light := polled.1 }

def next (s : Tasks) : Event → Tasks
  | .call c => s.call c
  | .gate sleep lag => (s.wait sleep lag).pollGate
  | .light sleep lag => (s.wait sleep lag).pollLight

/-- The tasks when they were just spawned. -/
def new (halfPeriod : Duration) (a b : MotorSettings) (initialWindLocked : Bool) : Tasks where
  a := a
  b := b
  initialWindLocked := initialWindLocked
  gate := .spawned (Board.new Controls.new)
  light := WarningLight.new halfPeriod

/-- The tasks after a run of events. -/
def after (halfPeriod : Duration) (a b : MotorSettings) (initialWindLocked : Bool) (events : List Event) : Tasks :=
  Machine.run next (new halfPeriod a b initialWindLocked) events

end Tasks

end GateLink
