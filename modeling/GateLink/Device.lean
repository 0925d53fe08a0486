import GateLink.Inputs
import GateLink.Mqtt.Handler

/-!
# The device

The tasks of the firmware together, as `main.rs` spawns them: the watchers of the inputs, the gate task, the MQTT task with the handler and
the discovery task, and what they share: the controls, the flash and the queues of the connection. An event is what one of them does from
one await to the next, or a reading of a pin. They come in any order; the executor is cooperative, so that no other task acts while the
MQTT task is being polled.

The gate and the connection keep a clock each, and nothing is said of how the two go together.
-/

namespace GateLink

/-- The gate task: spawned, with the settings of its leaves, the record loaded from flash and what was done to the controls so far, or
running. -/
inductive FirmwareTask where
  | spawned (a b : MotorSettings) (flash : Option GateState) (early : List Action)
  | running (f : Firmware)

namespace FirmwareTask

def controls : FirmwareTask → Controls
  | .spawned _ _ _ early => (early.map Action.call).foldl (fun c call => call.apply c) Controls.new
  | .running f => f.controls

def act (g : FirmwareTask) (a : Action) : FirmwareTask :=
  match g with
  | .spawned a' b flash early => .spawned a' b flash (early ++ [a])
  | .running f => .running (f.act a)

/-- What happens to the task once it runs. -/
def map (step : Firmware → Firmware) : FirmwareTask → FirmwareTask
  | .spawned a b flash early => .spawned a b flash early
  | .running f => .running (step f)

end FirmwareTask

/-- The controls at each notify between two traces, the oldest first. -/
def notifies (old new : List Entry) : List Controls :=
  ((new.take (new.length - old.length)).filter fun e => e.output = .notify).reverse.map Entry.controls

/-- The device. `handled` is what an observer notes: the messages that the handler has taken, the oldest first. -/
structure Device where
  gate : FirmwareTask
  mqtt : Mqtt
  handler : Handler
  debouncers : Button → Debouncer
  lastActive : Barrier → Option Bool
  panicked : Bool
  handled : List IncomingMessage

namespace Device

def controls (d : Device) : Controls := d.gate.controls

/-- `publish_state`, with the controls at that moment. -/
def publishState (d : Device) (c : Controls) : Device := { d with mqtt := d.mqtt.next (.publishState c) }

/-- What an input or the handler does to the gate. A command for the bypass publishes the new state right away. -/
def act (d : Device) (a : Action) : Device :=
  let d := { d with gate := d.gate.act a }
  match a with
  | .execute (.setBarrierBypass _) => d.publishState d.controls
  | _ => d

def actIf (d : Device) : Option Action → Device
  | some a => d.act a
  | none => d

/-- An `edge_task` reads its pin. -/
def sampleButton (d : Device) (button : Button) (low : Bool) : Device :=
  match (d.debouncers button).sample low with
  | none => { d with panicked := true }
  | some (pressed, debouncer) =>
    { d with debouncers := Function.update d.debouncers button debouncer }.actIf (if pressed then some button.action else none)

/-- A `level_task` reads its pin. -/
def readBarrier (d : Device) (barrier : Barrier) (low : Bool) : Device :=
  { d with lastActive := Function.update d.lastActive barrier (some low) }.actIf (barrier.readAction (d.lastActive barrier) low)

/-- The gate task has run, from a trace: each notify has published the state. -/
def gateRuns (d : Device) (f : Firmware) (old : List Entry) : Device :=
  (notifies old f.task.gate.board.trace).foldl publishState { d with gate := .running f }

/-- The gate task is polled. -/
def pollGate (d : Device) (sleep : Duration) (lag : Nat → Duration) : Device :=
  match d.gate with
  | .spawned a b flash early => d.gateRuns (Firmware.boot early a b flash) []
  | .running f => d.gateRuns (f.poll sleep lag) f.task.gate.board.trace

/-- The handler takes a turn, and executes the command of the message that it takes. -/
def handle (d : Device) : Device :=
  let taken := d.handler.takes d.mqtt
  { d with handler := d.handler.next d.mqtt, mqtt := d.handler.acts d.mqtt, handled := d.handled ++ taken.toList }.actIf
    ((taken.bind IncomingMessage.command).map Action.execute)

/-- The discovery task is polled: it answers CONNECTED with all configs and the state. -/
def discover (d : Device) : Device :=
  { d with mqtt := d.mqtt.next (.discovery d.controls),
           gate := if d.mqtt.connected = some () then d.gate.map Firmware.publishState else d.gate }

/-- Something happens to the device. -/
inductive Event where
  /-- The gate task is polled after some time, with its lags. -/
  | pollGate (sleep : Duration) (lag : Nat → Duration)
  /-- `flash.lock()` returns in the gate task. -/
  | locked
  | saveReturns (result : SaveResult)
  | sampleButton (button : Button) (low : Bool)
  | readBarrier (barrier : Barrier) (low : Bool)
  | handle
  | discover
  /-- Time passes for the connection. -/
  | sleep (t : Duration)
  /-- The executor polls the MQTT task. -/
  | wake
  /-- The MQTT task, being polled, goes on. -/
  | step (io : Io)

/-- No task is in the middle of a poll, and the device has not panicked. -/
def Idle (d : Device) : Prop := d.mqtt.running = false ∧ d.mqtt.place ≠ .panicked ∧ d.panicked = false

instance (d : Device) : Decidable d.Idle := inferInstanceAs (Decidable (_ ∧ _ ∧ _))

/-- What happens between two polls of the MQTT task. -/
def between (d d' : Device) : Device := if d.Idle then d' else d

def next (d : Device) : Event → Device
  | .pollGate sleep lag => d.between (d.pollGate sleep lag)
  | .locked => d.between { d with gate := d.gate.map Firmware.locked }
  | .saveReturns result => d.between { d with gate := d.gate.map (Firmware.saveReturns · result) }
  | .sampleButton button low => d.between (d.sampleButton button low)
  | .readBarrier barrier low => d.between (d.readBarrier barrier low)
  | .handle => d.between d.handle
  | .discover => d.between d.discover
  | .sleep t => { d with mqtt := d.mqtt.next (.sleep t) }
  | .wake => d.between { d with mqtt := d.mqtt.next .wake }
  | .step io => { d with mqtt := d.mqtt.next (.step io) }

/-- The device after boot, with these credentials in its configuration and this record in flash. -/
def boot (credentials : Option (String × Bytes)) (a b : MotorSettings) (flash : Option GateState) : Device where
  gate := .spawned a b flash []
  mqtt := Mqtt.boot credentials
  handler := .new
  debouncers := fun _ => .new edgeStableSamples
  lastActive := fun _ => none
  panicked := false
  handled := []

/-- The device after boot and a run of events. -/
def after (credentials : Option (String × Bytes)) (a b : MotorSettings) (flash : Option GateState) (events : List Event) : Device :=
  Machine.run next (boot credentials a b flash) events

end Device

end GateLink
