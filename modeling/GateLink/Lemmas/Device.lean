import GateLink.Device
import GateLink.Lemmas.Firmware

/-!
# The parts of the device

A run of the device is a run of each of its parts. For the connection this is an equation (`Device.mqtt_next`): an event of the device is
some events of the MQTT task, and every theorem about the connection holds of the device. For the gate task it is a rule
(`Device.runs_after`): what the firmware around the gate preserves, and no publication by the discovery task disturbs, holds of the gate
task of the device from its first poll on.
-/

namespace GateLink

open Machine

namespace Device

variable {d : Device}

/-! ## What an action does -/

/-- What an action publishes, with the controls after it. -/
def published (c : Controls) : Action → List Controls
  | .execute (.setBarrierBypass _) => [c]
  | .execute .open | .execute .close | .execute .stop | .execute .resetWindLock | .input _ => []

/-- The device but for the gate task and the connection. -/
structure Rest where
  handler : Handler
  debouncers : Button → Debouncer
  lastActive : Barrier → Option Bool
  panicked : Bool
  handled : List IncomingMessage

def rest (d : Device) : Rest where
  handler := d.handler
  debouncers := d.debouncers
  lastActive := d.lastActive
  panicked := d.panicked
  handled := d.handled

/-- An action of some task: what the gate, the connection and the rest of the device are after it. -/
theorem act_spec (d : Device) (a : Action) :
    (d.act a).gate = d.gate.act a ∧
      (d.act a).mqtt = run Mqtt.next d.mqtt ((published (d.gate.act a).controls a).map .publishState) ∧ (d.act a).rest = d.rest := by
  cases a with
  | input i => exact ⟨rfl, rfl, rfl⟩
  | execute command => cases command <;> exact ⟨rfl, rfl, rfl⟩

/-- What the gate task is after an action, if there is one. -/
def actedGate (g : FirmwareTask) (a : Option Action) : FirmwareTask := a.elim g g.act

/-- What is published with an action, if there is one. -/
def actPublished (g : FirmwareTask) (a : Option Action) : List Controls := a.elim [] fun a => published (g.act a).controls a

theorem actIf_spec (d : Device) (a : Option Action) :
    (d.actIf a).gate = actedGate d.gate a ∧ (d.actIf a).mqtt = run Mqtt.next d.mqtt ((actPublished d.gate a).map .publishState) ∧
      (d.actIf a).rest = d.rest := by
  cases a with
  | none => exact ⟨rfl, rfl, rfl⟩
  | some a => exact d.act_spec a

theorem foldl_publishState (d : Device) (states : List Controls) :
    (states.foldl publishState d).gate = d.gate ∧
      (states.foldl publishState d).mqtt = run Mqtt.next d.mqtt (states.map .publishState) ∧
        (states.foldl publishState d).rest = d.rest := by
  induction states generalizing d with
  | nil => exact ⟨rfl, rfl, rfl⟩
  | cons c states ih => exact ih (d.publishState c)

/-! ## What an event does -/

/-- The gate task after a poll, and the trace before it. -/
def polled (g : FirmwareTask) (sleep : Duration) (lag : Nat → Duration) : Firmware × List Entry :=
  match g with
  | .spawned a b flash early => (Firmware.boot early a b flash, [])
  | .running f => (f.poll sleep lag, f.task.gate.board.trace)

/-- What a poll of the gate task publishes. -/
def pollPublished (g : FirmwareTask) (sleep : Duration) (lag : Nat → Duration) : List Controls :=
  notifies (polled g sleep lag).2 (polled g sleep lag).1.task.gate.board.trace

theorem pollGate_spec (d : Device) (sleep : Duration) (lag : Nat → Duration) :
    (d.pollGate sleep lag).gate = .running (polled d.gate sleep lag).1 ∧
      (d.pollGate sleep lag).mqtt = run Mqtt.next d.mqtt ((pollPublished d.gate sleep lag).map .publishState) ∧
        (d.pollGate sleep lag).rest = d.rest := by
  have hruns : d.pollGate sleep lag = d.gateRuns (polled d.gate sleep lag).1 (polled d.gate sleep lag).2 := by
    unfold pollGate polled
    cases d.gate <;> rfl
  rw [hruns]
  exact foldl_publishState { d with gate := .running (polled d.gate sleep lag).1 } (pollPublished d.gate sleep lag)

/-- The action of a sample of a button, if it is the one that the debouncer takes for a press. -/
def sampleAction (d : Device) (button : Button) (low : Bool) : Option Action :=
  match (d.debouncers button).sample low with
  | some (true, _) => some button.action
  | _ => none

/-- What one event does to the rest of the device. -/
def restNext (d : Device) : Event → Rest
  | .sampleButton button low =>
    match (d.debouncers button).sample low with
    | none => { d.rest with panicked := true }
    | some (_, debouncer) => { d.rest with debouncers := Function.update d.debouncers button debouncer }
  | .readBarrier barrier low => { d.rest with lastActive := Function.update d.lastActive barrier (some low) }
  | .handle => { d.rest with handler := d.handler.next d.mqtt, handled := d.handled ++ (d.handler.takes d.mqtt).toList }
  | .pollGate _ _ | .locked | .saveReturns _ | .discover | .sleep _ | .wake | .step _ => d.rest

/-- What one event does to the gate task, with the state of the device before it. -/
def gateNext (d : Device) : Event → FirmwareTask
  | .pollGate sleep lag => .running (polled d.gate sleep lag).1
  | .locked => d.gate.map Firmware.locked
  | .saveReturns result => d.gate.map (Firmware.saveReturns · result)
  | .sampleButton button low => actedGate d.gate (d.sampleAction button low)
  | .readBarrier barrier low => actedGate d.gate (barrier.readAction (d.lastActive barrier) low)
  | .handle => actedGate d.gate (((d.handler.takes d.mqtt).bind IncomingMessage.command).map Action.execute)
  | .discover => if d.mqtt.connected = some () then d.gate.map Firmware.publishState else d.gate
  | .sleep _ | .wake | .step _ => d.gate

end Device

/-- The events that a turn of the handler is for the connection. -/
def Handler.events : Handler → List Mqtt.Event
  | .subscribing [] => []
  | .subscribing (topic :: _) => [.register (subscription topic)]
  | .sending _ => [.resume 0]
  | .receiving => [.receive]

theorem Handler.acts_eq (h : Handler) (s : Mqtt) : h.acts s = run Mqtt.next s h.events := by
  cases h with
  | subscribing rest => cases rest <;> rfl
  | sending | receiving => rfl

namespace Device

variable {d : Device}

/-- What one event is for the connection, if no task is in the middle of a poll. -/
def idleEvents (d : Device) : Event → List Mqtt.Event
  | .pollGate sleep lag => (pollPublished d.gate sleep lag).map .publishState
  | .sampleButton button low => (actPublished d.gate (d.sampleAction button low)).map .publishState
  | .readBarrier barrier low => (actPublished d.gate (barrier.readAction (d.lastActive barrier) low)).map .publishState
  | .handle =>
    d.handler.events ++
      (actPublished d.gate (((d.handler.takes d.mqtt).bind IncomingMessage.command).map Action.execute)).map .publishState
  | .discover => [.discovery d.controls]
  | .wake => [.wake]
  | .locked | .saveReturns _ | .sleep _ | .step _ => []

/-- What one event is for the connection. -/
def mqttEvents (d : Device) : Event → List Mqtt.Event
  | .sleep t => [.sleep t]
  | .step io => [.step io]
  | e => if d.Idle then d.idleEvents e else []

theorem mqttEvents_idle (hidle : d.Idle) {e : Event} (hsleep : ∀ t, e ≠ .sleep t) (hstep : ∀ io, e ≠ .step io) :
    d.mqttEvents e = d.idleEvents e := by
  cases e with
  | sleep t => exact absurd rfl (hsleep t)
  | step io => exact absurd rfl (hstep io)
  | pollGate | locked | saveReturns | sampleButton | readBarrier | handle | discover | wake => exact if_pos hidle

/-- Only a step of the device is one of the connection. -/
theorem mqttEvents_ne_step (d : Device) {e : Event} (he : ∀ io, e ≠ .step io) : ∀ e' ∈ d.mqttEvents e, ∀ io, e' ≠ .step io := by
  intro e' he' io
  have hhandler : .step io ∉ d.handler.events := by
    cases d.handler with
    | subscribing rest => cases rest <;> simp [Handler.events]
    | sending | receiving => simp [Handler.events]
  rintro rfl
  cases e with
  | step io => exact absurd rfl (he io)
  | sleep t => simp [mqttEvents] at he'
  | pollGate | locked | saveReturns | sampleButton | readBarrier | handle | discover | wake =>
    by_cases hidle : d.Idle <;> simp [mqttEvents, idleEvents, hidle, hhandler] at he'

/-- A sample of a button, whatever it comes to. -/
theorem sampleButton_spec (d : Device) (button : Button) (low : Bool) :
    (d.sampleButton button low).gate = actedGate d.gate (d.sampleAction button low) ∧
      (d.sampleButton button low).mqtt =
        run Mqtt.next d.mqtt ((actPublished d.gate (d.sampleAction button low)).map .publishState) ∧
      (d.sampleButton button low).rest = d.restNext (.sampleButton button low) := by
  unfold sampleButton
  cases hsample : (d.debouncers button).sample low with
  | none => simp [sampleAction, restNext, hsample, actedGate, actPublished, rest]
  | some sampled =>
    obtain ⟨pressed, debouncer⟩ := sampled
    have haction : d.sampleAction button low = if pressed then some button.action else none := by
      cases pressed <;> simp [sampleAction, hsample]
    have hrest : d.restNext (.sampleButton button low) =
        { d.rest with debouncers := Function.update d.debouncers button debouncer } := by simp [restNext, hsample]
    rw [haction, hrest]
    exact actIf_spec { d with debouncers := Function.update d.debouncers button debouncer } _

/-- Every event moves the gate task on in its own way, or nothing happens. -/
theorem gate_next (d : Device) (e : Event) : (d.next e).gate = if d.Idle then d.gateNext e else d.gate := by
  have hstill : d.gate = if d.Idle then d.gate else d.gate := (ite_self _).symm
  have hbetween {d' : Device} (h : d'.gate = d.gateNext e) : (d.between d').gate = if d.Idle then d.gateNext e else d.gate := by
    unfold between
    split
    · exact h
    · rfl
  cases e with
  | pollGate sleep lag => exact hbetween (d.pollGate_spec sleep lag).1
  | locked | saveReturns | discover | wake => exact hbetween rfl
  | sampleButton button low => exact hbetween (d.sampleButton_spec button low).1
  | readBarrier barrier low =>
    exact hbetween (actIf_spec { d with lastActive := Function.update d.lastActive barrier (some low) } _).1
  | handle => exact hbetween (actIf_spec _ _).1
  | sleep | step => exact hstill

/-- So does the rest of the device. -/
theorem rest_next (d : Device) (e : Event) : (d.next e).rest = if d.Idle then d.restNext e else d.rest := by
  have hstill : d.rest = if d.Idle then d.rest else d.rest := (ite_self _).symm
  have hbetween {d' : Device} (h : d'.rest = d.restNext e) : (d.between d').rest = if d.Idle then d.restNext e else d.rest := by
    unfold between
    split
    · exact h
    · rfl
  cases e with
  | pollGate sleep lag => exact hbetween (d.pollGate_spec sleep lag).2.2
  | locked | saveReturns | discover | wake => exact hbetween rfl
  | sampleButton button low => exact hbetween (d.sampleButton_spec button low).2.2
  | readBarrier barrier low =>
    exact hbetween (actIf_spec { d with lastActive := Function.update d.lastActive barrier (some low) } _).2.2
  | handle => exact hbetween (actIf_spec _ _).2.2
  | sleep | step => exact hstill

/-- Every event of the device is a run of the connection. -/
theorem mqtt_next (d : Device) (e : Event) : (d.next e).mqtt = run Mqtt.next d.mqtt (d.mqttEvents e) := by
  have hbetween {d' : Device} (h : d'.mqtt = run Mqtt.next d.mqtt (d.idleEvents e)) :
      (d.between d').mqtt = run Mqtt.next d.mqtt (if d.Idle then d.idleEvents e else []) := by
    unfold between
    split
    · exact h
    · rfl
  cases e with
  | pollGate sleep lag => exact hbetween (d.pollGate_spec sleep lag).2.1
  | locked | saveReturns | discover | wake => exact hbetween rfl
  | sampleButton button low => exact hbetween (d.sampleButton_spec button low).2.1
  | readBarrier barrier low =>
    exact hbetween (actIf_spec { d with lastActive := Function.update d.lastActive barrier (some low) } _).2.1
  | handle =>
    refine hbetween ?_
    unfold handle idleEvents
    rw [(actIf_spec _ _).2.1, run_append, ← Handler.acts_eq]
  | sleep | step => rfl

/-- The events of the connection in a run of the device. -/
theorem mqtt_after (credentials : Option (String × Bytes)) (a b : MotorSettings) (flash : Option GateState) (events : List Event) :
    (Device.after credentials a b flash events).mqtt =
      Mqtt.after credentials (partEvents next mqttEvents (boot credentials a b flash) events) :=
  run_part mqtt_next (boot credentials a b flash) events

/-! ## The gate task -/

end Device

namespace Firmware

/-- The flash is the business of the firmware around the gate. -/
theorem locked_frame (f : Firmware) : f.locked.task = f.task ∧ f.locked.announced = f.announced := by
  unfold locked
  split <;> exact ⟨rfl, rfl⟩

theorem saveReturns_frame (f : Firmware) (result : SaveResult) :
    (f.saveReturns result).task = f.task ∧ (f.saveReturns result).announced = f.announced := by
  unfold saveReturns
  split
  · cases result with
    | ok => exact ⟨rfl, rfl⟩
    | err written => cases written <;> exact ⟨rfl, rfl⟩
  · exact ⟨rfl, rfl⟩

end Firmware

namespace Device

variable {d : Device}

/-- The gate task is spawned with these arguments, or it runs and has a property. -/
def Runs (a b : MotorSettings) (flash : Option GateState) (P : Firmware → Prop) : FirmwareTask → Prop
  | .spawned a' b' flash' _ => a' = a ∧ b' = b ∧ flash' = flash
  | .running f => P f

theorem runs_act {a b : MotorSettings} {flash : Option GateState} {P : Firmware → Prop} {g : FirmwareTask}
    (hact : ∀ f x, P f → P (f.act x)) (h : Runs a b flash P g) (x : Option Action) : Runs a b flash P (actedGate g x) := by
  cases x with
  | none => exact h
  | some x =>
    cases g with
    | spawned => exact h
    | running f => exact hact f x h

theorem runs_map {a b : MotorSettings} {flash : Option GateState} {P : Firmware → Prop} {g : FirmwareTask} {step : Firmware → Firmware}
    (hstep : ∀ f, P f → P (step f)) (h : Runs a b flash P g) : Runs a b flash P (g.map step) := by
  cases g with
  | spawned => exact h
  | running f => exact hstep f h

/-- One event, for what the firmware preserves where it is allowed. -/
theorem runs_next {a b : MotorSettings} {flash : Option GateState} {P : Firmware → Prop} {ok : Firmware → Firmware.Event → Prop}
    (hboot : ∀ early, P (Firmware.boot early a b flash)) (hnext : ∀ f e, ok f e → P f → P (f.next e))
    (hpublish : ∀ f, P f → P f.publishState) {d : Device} {e : Event} (hact : ∀ f x, ok f (.act x)) (hlocked : ∀ f, ok f .locked)
    (hsave : ∀ f result, e = .saveReturns result → ok f (.saveReturns result))
    (hpoll : ∀ f sleep lag, e = .pollGate sleep lag → d.gate = .running f → ok f (.poll sleep lag))
    (h : Runs a b flash P d.gate) : Runs a b flash P (d.next e).gate := by
  rw [gate_next]
  split
  · have hacts (x : Option Action) : Runs a b flash P (actedGate d.gate x) :=
      runs_act (fun f x hf => hnext f (.act x) (hact f x) hf) h x
    cases e with
    | pollGate sleep lag =>
      show P (polled d.gate sleep lag).1
      cases hg : d.gate with
      | spawned a' b' flash' early =>
        rw [hg] at h
        obtain ⟨rfl, rfl, rfl⟩ := h
        exact hboot early
      | running f =>
        rw [hg] at h
        exact hnext f (.poll sleep lag) (hpoll f sleep lag rfl hg) h
    | locked => exact runs_map (fun f hf => hnext f .locked (hlocked f) hf) h
    | saveReturns result => exact runs_map (fun f hf => hnext f (.saveReturns result) (hsave f result rfl) hf) h
    | sampleButton | readBarrier | handle => exact hacts _
    | discover =>
      show Runs a b flash P (if d.mqtt.connected = some () then d.gate.map Firmware.publishState else d.gate)
      split
      · exact runs_map hpublish h
      · exact h
    | sleep | wake | step => exact h
  · exact h

/-- What the firmware preserves holds of the gate task of the device. -/
theorem runs_after {a b : MotorSettings} {flash : Option GateState} {P : Firmware → Prop}
    (hboot : ∀ early, P (Firmware.boot early a b flash)) (hnext : ∀ f e, P f → P (f.next e)) (hpublish : ∀ f, P f → P f.publishState)
    (credentials : Option (String × Bytes)) (events : List Event) : Runs a b flash P (Device.after credentials a b flash events).gate :=
  run_always (P := fun d : Device => Runs a b flash P d.gate)
    (fun _ _ hd => runs_next hboot (fun f e (_ : True) => hnext f e) hpublish (fun _ _ => trivial) (fun _ => trivial)
      (fun _ _ _ => trivial) (fun _ _ _ _ _ => trivial) hd)
    (s := boot credentials a b flash) ⟨rfl, rfl, rfl⟩ events

end Device

end GateLink
