import GateLink.Gate

/-!
# System

The gate task and the rest of the system together. The rest of the system can make any call on the controls at any time, and
the executor can poll the gate task at any time: a run is a list of such events, in any order. One poll event runs one step at
most, so that calls can also come in between two steps, where the firmware's task awaits the flash; a poll that runs steps
back to back is `Task.pollSteps`.
-/

namespace GateLink

/-- Something happens to the system: a call on the controls, or a poll of the gate after some time, with its lags. -/
inductive Event where
  | call (c : Call)
  | poll (sleep : Duration) (lag : Nat → Duration)

/-- A call on the controls. -/
def Task.call (t : Task) (c : Call) : Task := { t with gate := t.gate.modify (c.apply ·) }

/-- Time passes while the task sleeps. -/
def Task.wait (t : Task) (sleep : Duration) (lag : Nat → Duration) : Task :=
  { t with gate := { t.gate with board := t.gate.board.wait sleep lag } }

/-- One event. -/
def Task.next (t : Task) : Event → Task
  | .call c => t.call c
  | .poll sleep lag => (t.wait sleep lag).poll

/-- One step of a poll that runs steps back to back: goes on while the step is over. -/
def Task.stepTurn (t : Task) : Machine.Turn Task :=
  match t.poll.await with
  | .settled _ => .again t.poll
  | _ => .halt t.poll

/-- What the steps of a poll can use up: signals (a command can come back as pending), the pending command, a movement. -/
def Task.work (t : Task) : Nat :=
  2 * t.gate.controls.signals + t.gate.pending.isSome.toNat +
    match t.await with
    | .moving _ _ _ => 1
    | _ => 0

/-- A poll that runs steps back to back: until one suspends, or `more` steps after the first are over. -/
def Task.pollSteps (t : Task) (more : Nat) : Task := Machine.loop Task.stepTurn (more + 1) t

/-- A poll that runs steps back to back until one of them suspends. -/
def Task.polls (t : Task) : Task := t.pollSteps t.work

/-- The settings of a leaf. -/
def settingsAt (a b : MotorSettings) : Leaf → MotorSettings
  | .a => a
  | .b => b

/-- The gate task after boot. `early` are the calls made before it ran for the first time. -/
def boot (early : List Call) (a b : MotorSettings) (initialWindLocked : Bool) : Task :=
  let ma := Motor.new .a a (Board.new (early.foldl (fun c call => call.apply c) Controls.new))
  let mb := Motor.new .b b ma.2
  Gate.new mb.2 ma.1 mb.1 initialWindLocked

/-- The gate task after boot and a run of events. -/
def after (early : List Call) (a b : MotorSettings) (initialWindLocked : Bool) (events : List Event) : Task :=
  Machine.run Task.next (boot early a b initialWindLocked) events

end GateLink
