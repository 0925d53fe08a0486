import GateLink.Device
import GateLink.Provisioning

/-!
# The life of the device

Boots, one after the other (`main.rs`, with `reset_button.rs`, `storage.rs` and `provisioning_http.rs`): the reset button is watched, the
records are loaded from flash and the tasks are started; then the device is in station mode, serves the provisioning form, or does neither
if the radio fails. The power can be cut at any moment, and a panic reboots as well; what was being written is then in flash, or not.

The two records have keys of their own: a write of one leaves the other alone. A configuration that cannot be read is as good as none.
-/

namespace GateLink

/-- `HOLD_MS` -/
def hold : Duration := fromMillis 5000

/-- `POLL_INTERVAL_MS` -/
def pollInterval : Duration := fromMillis 50

/-- The records in flash. -/
structure Flash where
  config : Option AppConfig
  gateState : Option GateState

/-- Where `run_provisioning_mode` stands: in `CONFIG_SUBMITTED.wait()`, in `flash.lock()`, in `storage::save`, or before the reset. -/
inductive Setup where
  | waiting (submitted : Option AppConfig)
  | locking (cfg : AppConfig)
  | saving (cfg : AppConfig)
  | resetting

/-- What the device does beside the control of the gate. -/
inductive Mode where
  | station (cfg : AppConfig)
  | provisioning (setup : Setup)
  | localControl

/-- Where a boot stands: in the loop of `check_and_maybe_erase`, in `storage::erase`, before the records are loaded, or with the tasks
running. -/
inductive Boot where
  | button (start now : Instant)
  | erasing
  | loading
  | running (mode : Mode) (device : Device)

/-- The life of the device. -/
structure Life where
  flash : Flash
  boot : Boot

/-- The credentials of the MQTT task, which runs in station mode. -/
def Mode.credentials : Mode → Option (String × Bytes)
  | .station cfg => cfg.credentials
  | .provisioning _ | .localControl => none

/-- The event is one of the tasks that run in every mode. -/
def Device.Event.isLocal : Device.Event → Bool
  | .pollGate _ _ | .locked | .saveReturns _ | .sampleButton _ _ | .readBarrier _ _ => true
  | .handle | .discover | .sleep _ | .wake | .step _ => false

/-- The mode has the task of the event, and does not hold the flash that the event takes. -/
def Mode.runs (mode : Mode) (e : Device.Event) : Bool :=
  match mode, e with
  | .station _, _ => true
  | .provisioning (.saving _), .locked => false
  | _, e => e.isLocal

/-- The record that the gate task is saving. -/
def Device.saving (d : Device) : Option GateState :=
  match d.gate with
  | .spawned _ _ _ _ => none
  | .running f =>
    match f.stage with
    | .save state => some state
    | .step | .lock _ => none

/-- What a write of a record leaves in flash. -/
def SaveResult.leaves {α : Type} (result : SaveResult) (old new : Option α) : Option α :=
  match result with
  | .ok | .err true => new
  | .err false => old

/-- What an event leaves of the record of the gate in flash. -/
def Device.leaves (d : Device) (e : Device.Event) (old : Option GateState) : Option GateState :=
  match e, d.saving with
  | .saveReturns result, some state => if d.Idle then result.leaves old (some state) else old
  | _, _ => old

namespace Life

/-- One sample of the boot button. -/
def sample (low : Bool) (late : Duration) (start now : Instant) : Boot :=
  if low then
    if hold ≤ now - start then .erasing else .button start (now + pollInterval + late)
  else .loading

/-- `main` starts the tasks, with what was read from flash. -/
def start (a b : MotorSettings) (config : Option AppConfig) (gateState : Option GateState) (radio : Bool) : Boot :=
  let mode : Mode :=
    if radio then
      match config with
      | some cfg => if cfg.wifiSsid ≠ "" then .station cfg else .provisioning (.waiting none)
      | none => .provisioning (.waiting none)
    else .localControl
  .running mode (Device.boot mode.credentials a b gateState)

/-- Something happens in the life of the device. -/
inductive Event where
  /-- The boot button is sampled; if it is held, the next sample comes this much later than the interval. -/
  | sample (low : Bool) (late : Duration)
  /-- `storage::erase` returns. -/
  | erased (result : SaveResult)
  /-- The records are loaded, and the tasks are started; `radio` says whether the Wi-Fi controller can be set up. -/
  | load (configReads stateReads radio : Bool)
  | device (e : Device.Event)
  /-- A form is submitted. -/
  | submit (form : SubmittedForm)
  /-- `CONFIG_SUBMITTED.wait()` returns in `main`. -/
  | taken
  /-- `flash.lock()` returns in `main`. -/
  | locked
  /-- `storage::save` returns. -/
  | saved (result : SaveResult)
  /-- The power is cut or the device resets; what was being written is in flash, or not. -/
  | reset (written : Bool)

/-- What a reset leaves in flash. -/
def interrupted (l : Life) (written : Bool) : Flash :=
  match l.boot with
  | .erasing => { l.flash with config := (SaveResult.err written).leaves l.flash.config none }
  | .running (.provisioning (.saving cfg)) _ => { l.flash with config := (SaveResult.err written).leaves l.flash.config (some cfg) }
  | .running _ d =>
    match d.saving with
    | some state => { l.flash with gateState := (SaveResult.err written).leaves l.flash.gateState (some state) }
    | none => l.flash
  | .button _ _ | .loading => l.flash

/-- A form is submitted: if it is valid, its configuration is signalled. -/
def submit (form : SubmittedForm) : Setup → Setup
  | .waiting submitted =>
    match form.intoConfig with
    | .ok cfg => .waiting (some cfg)
    | .error _ => .waiting submitted
  | setup => setup

def next (a b : MotorSettings) (l : Life) (e : Event) : Life :=
  match e, l.boot with
  | .sample low late, .button start now => { l with boot := sample low late start now }
  | .erased result, .erasing => { flash := { l.flash with config := result.leaves l.flash.config none }, boot := .loading }
  | .load configReads stateReads radio, .loading =>
    { l with boot := start a b (if configReads then l.flash.config else none) (if stateReads then l.flash.gateState else none) radio }
  | .device e, .running mode d =>
    if mode.runs e then
      { flash := { l.flash with gateState := d.leaves e l.flash.gateState }, boot := .running mode (d.next e) }
    else l
  | .submit form, .running (.provisioning setup) d => { l with boot := .running (.provisioning (submit form setup)) d }
  | .taken, .running (.provisioning (.waiting (some cfg))) d => { l with boot := .running (.provisioning (.locking cfg)) d }
  | .locked, .running (.provisioning (.locking cfg)) d =>
    if d.saving = none then { l with boot := .running (.provisioning (.saving cfg)) d } else l
  | .saved result, .running (.provisioning (.saving cfg)) d =>
    { flash := { l.flash with config := result.leaves l.flash.config (some cfg) }, boot := .running (.provisioning .resetting) d }
  | .reset written, _ => { flash := l.interrupted written, boot := .button 0 0 }
  | _, _ => l

/-- The life of a device with these records in flash, after some events. -/
def after (a b : MotorSettings) (flash : Flash) (events : List Event) : Life :=
  Machine.run (next a b) { flash := flash, boot := .button 0 0 } events

end Life

end GateLink
