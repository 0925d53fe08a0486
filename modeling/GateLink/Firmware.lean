import GateLink.Messages
import GateLink.System

/-!
# Firmware

The firmware around the gate controller (`physical/gate.rs`): what its inputs and the MQTT handler call, what it publishes, and the task
that runs the gate forever and saves its state to flash. The task is suspended in a step of the gate, waiting for the flash, or waiting
for a save; `Stage` says which. Calls can come in at any of these points.

A save that fails leaves in flash the record that was there or the new one.
-/

namespace GateLink

/-- `GateState`: the record of the gate in flash. -/
structure GateState where
  leafAPosition : U8
  leafBPosition : U8
  windLocked : Bool
  deriving DecidableEq, Repr

instance : Inhabited GateState := ⟨{ leafAPosition := 0, leafBPosition := 0, windLocked := false }⟩

def toGateState (s : Snapshot) : GateState where
  leafAPosition := s.leafAPosition
  leafBPosition := s.leafBPosition
  windLocked := s.windLocked

theorem toGateState_injective {s s' : Snapshot} (h : toGateState s = toGateState s') : s = s' := by
  cases s
  cases s'
  cases h
  rfl

/-- What the inputs of the board call, other than the one that arms the bypass. -/
inductive Input where
  | impulse | windTrigger | resetWindLock
  | barrier1Set (active : Bool)
  | barrier2Set (active : Bool)
  deriving DecidableEq, Repr

def Input.call : Input → Call
  | .impulse => .impulse
  | .windTrigger => .windTrigger
  | .resetWindLock => .resetWindLock
  | .barrier1Set active => .barrier1Set active
  | .barrier2Set active => .barrier2Set active

/-- What the rest of the firmware does to the gate: an input, or `execute` of a command. -/
inductive Action where
  | input (i : Input)
  | execute (command : Command)
  deriving DecidableEq, Repr

def Action.call : Action → Call
  | .input i => i.call
  | .execute command => command.call

/-- How `save_gate_state` returns; `written` says whether the new record is in flash nevertheless. -/
inductive SaveResult where
  | ok
  | err (written : Bool)
  deriving DecidableEq, Repr

/-- A save that has returned. -/
structure Save where
  state : GateState
  result : SaveResult
  deriving DecidableEq, Repr

/-- Where the loop of the gate task is: in `gate.step()`, in `flash.lock()` or in `save_gate_state`. -/
inductive Stage where
  | step
  | lock (state : GateState)
  | save (state : GateState)
  deriving DecidableEq, Repr

/-- The gate task of the firmware, with the flash and what was published last. `saves` is what an observer notes of the saves, the
newest first. -/
structure Firmware where
  task : Task
  stage : Stage
  saved : GateState
  flash : Option GateState
  saves : List Save
  announced : List (String × String)

namespace Firmware

def controls (f : Firmware) : Controls := f.task.gate.controls

/-- `load_gate_state().unwrap_or_default()` -/
def loaded (flash : Option GateState) : GateState := flash.getD default

/-- What is announced after these entries of the trace, the newest first: the state messages at the latest notify. -/
def announce (announced : List (String × String)) (entries : List Entry) : List (String × String) :=
  match entries.find? fun e => e.output = .notify with
  | some e => stateMessages e.controls
  | none => announced

def publishState (f : Firmware) : Firmware := { f with announced := stateMessages f.controls }

/-- `execute`: a command for the bypass publishes the new state right away. -/
def execute (f : Firmware) (command : Command) : Firmware :=
  let f := { f with task := f.task.call command.call }
  match command with
  | .setBarrierBypass _ => f.publishState
  | _ => f

def act (f : Firmware) : Action → Firmware
  | .input i => { f with task := f.task.call i.call }
  | .execute command => f.execute command

/-- Polls `gate.step()`. A step that returns is compared with what was saved last; the next one begins with the next poll. -/
def pollStep (f : Firmware) (sleep : Duration) (lag : Nat → Duration) : Firmware :=
  let task := (f.task.wait sleep lag).poll
  let old := f.task.gate.board.trace
  let new := task.gate.board.trace
  let f := { f with task := task, announced := announce f.announced (new.take (new.length - old.length)) }
  match task.await with
  | .settled snapshot => if toGateState snapshot = f.saved then f else { f with stage := .lock (toGateState snapshot) }
  | _ => f

/-- Polls the task: in `lock` and `save` it waits for the flash. -/
def poll (f : Firmware) (sleep : Duration) (lag : Nat → Duration) : Firmware :=
  match f.stage with
  | .step => f.pollStep sleep lag
  | _ => f

/-- `flash.lock()` returns. -/
def locked (f : Firmware) : Firmware :=
  match f.stage with
  | .lock state => { f with stage := .save state }
  | _ => f

/-- `save_gate_state` returns. -/
def saveReturns (f : Firmware) (result : SaveResult) : Firmware :=
  match f.stage with
  | .save state =>
    let f := { f with stage := .step, saves := { state := state, result := result } :: f.saves }
    match result with
    | .ok => { f with flash := some state, saved := state }
    | .err written => if written then { f with flash := some state } else f
  | _ => f

/-- Something happens to the firmware. -/
inductive Event where
  | act (a : Action)
  | poll (sleep : Duration) (lag : Nat → Duration)
  | locked
  | saveReturns (result : SaveResult)

def next (f : Firmware) : Event → Firmware
  | .act a => f.act a
  | .poll sleep lag => f.poll sleep lag
  | .locked => f.locked
  | .saveReturns result => f.saveReturns result

/-- The settings of a leaf, with the position from flash. -/
def restore (s : MotorSettings) (position : U8) : MotorSettings := { s with initialPosition := position }

/-- The gate task after boot, with the state loaded from flash. `early` is what was done before it ran for the first time. The record in
flash is read without an error here: `flash` is both the record and what was loaded. A read that fails is an event of `Life`. -/
def boot (early : List Action) (a b : MotorSettings) (flash : Option GateState) : Firmware :=
  let state := loaded flash
  let task := GateLink.boot (early.map Action.call) (restore a state.leafAPosition) (restore b state.leafBPosition) state.windLocked
  { task := task, stage := .step, saved := toGateState task.gate.snapshot, flash := flash, saves := [],
    announced := stateMessages task.gate.controls }

/-- The gate task after boot and a run of events. -/
def after (early : List Action) (a b : MotorSettings) (flash : Option GateState) (events : List Event) : Firmware :=
  Machine.run next (boot early a b flash) events

end Firmware

end GateLink
