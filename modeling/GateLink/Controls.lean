import GateLink.Time

/-!
# Controls

`Controls` of the gate: the command slot, the safety inputs and the published state, shared between the gate task and the
rest of the system, with the calls any task can make on it at any time. Every call is atomic: the executor is cooperative and
none of them awaits.
-/

namespace GateLink

/-- A direction of movement. -/
inductive Direction where
  | opening | closing
  deriving DecidableEq, Repr

/-- The other direction. -/
def Direction.other : Direction → Direction
  | .opening => .closing
  | .closing => .opening

/-- `GateCommand`. -/
inductive GateCommand where
  | «open» | close | stop | impulse
  deriving DecidableEq, Repr

/-- `CoverState`: the gate as Home Assistant's `cover` sees it. -/
inductive CoverState where
  | «open» | opening | closed | closing
  deriving DecidableEq, Repr

/-- What `current_direction` and `last_direction` hold: the `DIR_*` constants. -/
inductive Dir where
  | dirIdle | dirOpening | dirClosing
  deriving DecidableEq, Repr

/-- What `position` of the controls holds: the `POS_*` constants. -/
inductive Pos where
  | posClosed | posPartial | posOpen
  deriving DecidableEq, Repr

/-- `embassy_sync`'s `Signal`: a mailbox for one value, overwritten by the next signal and emptied by the wait that takes it. -/
abbrev Signal (α : Type) : Type := Option α

/-- `Controls`. -/
structure Controls where
  command : Signal GateCommand
  barrierChanged : Signal Unit
  windLockReset : Signal Unit
  currentDirection : Dir
  lastDirection : Dir
  position : Pos
  windLocked : Bool
  barrier1Active : Bool
  barrier2Active : Bool
  barrierBypass : Bool
  lightChanged : Signal Unit
  deriving DecidableEq

/-- The direction constant that `set_direction` stores. -/
def Direction.dir : Direction → Dir
  | .opening => .dirOpening
  | .closing => .dirClosing

namespace Controls

def new : Controls where
  command := none
  barrierChanged := none
  windLockReset := none
  currentDirection := .dirIdle
  lastDirection := .dirClosing
  position := .posClosed
  windLocked := false
  barrier1Active := false
  barrier2Active := false
  barrierBypass := false
  lightChanged := none

def send (c : Controls) (command : GateCommand) : Controls := { c with command := some command }

/-- A command of the normal inputs: ignored while the wind lock is engaged. -/
def sendUnlessLocked (c : Controls) (command : GateCommand) : Controls :=
  if c.windLocked then c else c.send command

def «open» (c : Controls) : Controls := c.sendUnlessLocked .open

def close (c : Controls) : Controls := c.sendUnlessLocked .close

def stop (c : Controls) : Controls := c.sendUnlessLocked .stop

def impulse (c : Controls) : Controls := c.sendUnlessLocked .impulse

def windTrigger (c : Controls) : Controls := { c with windLocked := true }.send .open

def resetWindLock (c : Controls) : Controls := { c with windLocked := false, windLockReset := some () }

def barrier1Set (c : Controls) (active : Bool) : Controls :=
  let c := { c with barrier1Active := active, barrierChanged := some () }
  if !active && c.windLocked then c.send .open else c

def barrier2Set (c : Controls) (active : Bool) : Controls :=
  { c with barrier2Active := active, barrierChanged := some () }

def setBarrierBypass (c : Controls) (active : Bool) : Controls :=
  { c with barrierBypass := active, barrierChanged := some (), lightChanged := some () }

def warningLightActive (c : Controls) : Bool := c.currentDirection != .dirIdle || c.barrierBypass

def coverState (c : Controls) : CoverState :=
  match c.currentDirection with
  | .dirOpening => .opening
  | .dirClosing => .closing
  | .dirIdle => if c.position = .posClosed then .closed else .open

/-- Why the gate may not move in a direction right now, if anything. -/
def blocked (c : Controls) (direction : Direction) : Option String :=
  let barriersChecked := !c.barrierBypass
  if barriersChecked && c.barrier1Active then some "light barrier 1 interrupted"
  else if barriersChecked && direction = .closing && c.barrier2Active then some "light barrier 2 interrupted"
  else if direction = .closing && c.windLocked then some "wind lock engaged"
  else none

/-- Turns an impulse into a concrete command while the gate is idle. -/
def resolveImpulse (c : Controls) (command : GateCommand) : GateCommand :=
  if command ≠ .impulse then command
  else
    match c.position with
    | .posClosed => .open
    | .posOpen => .close
    | .posPartial =>
      match c.lastDirection with
      | .dirOpening => .close
      | _ => .open

def setDirection (c : Controls) (direction : Direction) : Controls :=
  { c with currentDirection := direction.dir, lastDirection := direction.dir, lightChanged := some () }

end Controls

def commandFor : Direction → GateCommand
  | .opening => .open
  | .closing => .close

/-- A call on the controls, from an input watcher or the MQTT handler. -/
inductive Call where
  | «open» | close | stop | impulse | windTrigger | resetWindLock
  | barrier1Set (active : Bool)
  | barrier2Set (active : Bool)
  | setBarrierBypass (active : Bool)
  deriving DecidableEq, Repr

/-- What a call does to the controls. -/
def Call.apply (call : Call) (c : Controls) : Controls :=
  match call with
  | .open => c.open
  | .close => c.close
  | .stop => c.stop
  | .impulse => c.impulse
  | .windTrigger => c.windTrigger
  | .resetWindLock => c.resetWindLock
  | .barrier1Set active => c.barrier1Set active
  | .barrier2Set active => c.barrier2Set active
  | .setBarrierBypass active => c.setBarrierBypass active

end GateLink
