import GateLink.Lib.Machine
import GateLink.Motor

/-!
# Gate

The gate controller (`gate.rs`), and the gate task as the state machine its `async` functions are: a task is the gate with the
point it is suspended at and the local variables that live across it. The code between two awaits is one function here, and
`Task.advance` is one turn: it polls the future the task waits on and, if that is ready, runs on to the next await. A poll of
the task takes turns until the future it waits on is pending or the step is over.

`select` and `select4` poll their arms in order and drop the others, so only the arm that wins takes its signal. A `Timer` that
was just built is pending on its first poll whatever the time; afterwards it is ready once its deadline has come.
-/

namespace GateLink

open Machine (Turn)

/-- `Snapshot`: what the firmware persists once a command settled. -/
structure Snapshot where
  leafAPosition : U8
  leafBPosition : U8
  windLocked : Bool
  deriving DecidableEq, Repr

/-- The coarse classification of the leaf positions. -/
def Snapshot.classify (s : Snapshot) : Pos :=
  if s.leafAPosition = 0 ∧ s.leafBPosition = 0 then .posClosed
  else if s.leafAPosition = 255 ∧ s.leafBPosition = 255 then .posOpen
  else .posPartial

/-- `Phase`: where one leaf is within the current movement. -/
inductive Phase where
  | waiting (startAt : Instant)
  | running (stopAt : Instant)
  | done
  deriving DecidableEq, Repr

/-- Folds a leaf's deadline, if it has one, into the earliest so far. -/
def Phase.earliest (next : Option Instant) : Phase → Option Instant
  | .waiting deadline | .running deadline => some (next.elim deadline (min · deadline))
  | .done => next

def plan {leaf : Leaf} (m : Motor leaf) (direction : Direction) (now : Instant) : Phase :=
  match m.runTime direction with
  | none => .done
  | some _ => .waiting (max (now + m.initialDelay direction) m.readyAt)

/-- The local variables of `drive` that live across its loop. -/
structure Drive where
  direction : Direction
  aPhase : Phase
  bPhase : Phase
  moved : Bool
  deriving DecidableEq, Repr

namespace Drive

def phase (dr : Drive) : Leaf → Phase
  | .a => dr.aPhase
  | .b => dr.bPhase

def setPhase (dr : Drive) (leaf : Leaf) (p : Phase) : Drive :=
  match leaf with
  | .a => { dr with aPhase := p }
  | .b => { dr with bPhase := p }

def setMoved (dr : Drive) : Drive := { dr with moved := true }

/-- `next_deadline` after the loop over the leaves. -/
def nextDeadline (dr : Drive) : Option Instant := dr.bPhase.earliest (dr.aPhase.earliest none)

end Drive

/-- `Gate`: the owner of the two motors, with the board it works on. -/
structure Gate where
  board : Board
  a : Motor .a
  b : Motor .b
  pending : Option GateCommand

/-- Where the gate task stands when it is not running. -/
inductive Await where
  /-- Between two steps: the last one, or `Gate::new`, settled with this snapshot. -/
  | settled (snapshot : Snapshot)
  /-- In the `select` of `step`. -/
  | idle
  /-- In the `select4` of `drive`, with the deadline of its timer, and whether the timer was polled before. -/
  | moving (drive : Drive) (deadline : Instant) (yielded : Bool)
  deriving DecidableEq, Repr

/-- The gate task. -/
structure Task where
  gate : Gate
  await : Await

namespace Gate

def controls (g : Gate) : Controls := g.board.controls

def motor (g : Gate) : (leaf : Leaf) → Motor leaf
  | .a => g.a
  | .b => g.b

def setMotor (g : Gate) : (leaf : Leaf) → Motor leaf → Gate
  | .a, m => { g with a := m }
  | .b, m => { g with b := m }

/-- A store to the shared controls. -/
def modify (g : Gate) (f : Controls → Controls) : Gate := { g with board := g.board.modify f }

def record (g : Gate) (o : Output) : Gate := { g with board := g.board.record o }

/-- Time passes until the next action: what a reading of the clock, or a write to a pin, comes after. -/
def tick (g : Gate) : Gate := { g with board := g.board.tick }

def now (g : Gate) : Instant := g.board.now

def snapshot (g : Gate) : Snapshot where
  leafAPosition := g.a.position
  leafBPosition := g.b.position
  windLocked := g.controls.windLocked

/-- `Gate::settle`: re-classifies the leaf positions after a command and notifies. -/
def settle (g : Gate) : Gate × Snapshot :=
  let g := g.modify ({ · with currentDirection := .dirIdle })
  let snapshot := g.snapshot
  let g := g.modify ({ · with position := snapshot.classify })
  (g.record .notify, snapshot)

/-- The end of `step`: what `drive` hands back is executed next. -/
def endStep (g : Gate) (result : Option GateCommand) : Task :=
  let settled := { g with pending := result }.settle
  { gate := settled.1, await := .settled settled.2 }

/-- `Motor::start` of a leaf. -/
def startLeaf (g : Gate) (leaf : Leaf) (direction : Direction) : Gate :=
  let started := (g.motor leaf).start direction g.board
  { g.setMotor leaf started.1 with board := started.2 }

/-- `Motor::stop` of a leaf. -/
def stopLeaf (g : Gate) (leaf : Leaf) : Gate :=
  let stopped := (g.motor leaf).stop g.board
  { g.setMotor leaf stopped.1 with board := stopped.2 }

/-- The end of `drive`, after its loop. -/
def endDrive (g : Gate) (dr : Drive) : Gate :=
  let g := (g.stopLeaf .a).stopLeaf .b
  let g := if dr.moved then g.modify ({ · with barrierBypass := false }) else g
  g.record .finish

/-- In the loop over the leaves: starts a leaf whose wait is over. -/
def startIfDue (g : Gate) (dr : Drive) (leaf : Leaf) (now : Instant) : Gate × Drive :=
  match dr.phase leaf with
  | .waiting startAt =>
    if startAt ≤ now then
      match (g.motor leaf).runTime dr.direction with
      | some runTime =>
        (g.startLeaf leaf dr.direction, (dr.setPhase leaf (.running (now + runTime))).setMoved)
      | none => (g, dr.setPhase leaf .done)
    else (g, dr)
  | _ => (g, dr)

/-- In the loop over the leaves: stops a leaf whose run is over. -/
def stopIfDue (g : Gate) (dr : Drive) (leaf : Leaf) (now : Instant) : Gate × Drive :=
  match dr.phase leaf with
  | .running stopAt => if stopAt ≤ now then (g.stopLeaf leaf, dr.setPhase leaf .done) else (g, dr)
  | _ => (g, dr)

/-- The body of the loop over the leaves. -/
def passLeaf (g : Gate) (dr : Drive) (leaf : Leaf) (now : Instant) : Gate × Drive :=
  let started := g.startIfDue dr leaf now
  started.1.stopIfDue started.2 leaf now

/-- The loop over the leaves. -/
def pass (g : Gate) (dr : Drive) : Gate × Drive :=
  let g := g.tick
  let now := g.now
  let passed := g.passLeaf dr .a now
  passed.1.passLeaf passed.2 .b now

/-- The loop of `drive`, from its top to the `select4` or to the end of the step. -/
def driveLoop (g : Gate) (dr : Drive) : Task :=
  match g.controls.blocked dr.direction with
  | some _ => (g.endDrive dr).endStep none
  | none =>
    let passed := g.pass dr
    match passed.2.nextDeadline with
    | none => (passed.1.endDrive passed.2).endStep none
    | some deadline => { gate := passed.1, await := .moving passed.2 deadline false }

/-- The start of a movement in `drive`, once it is not blocked. -/
def begin (g : Gate) (direction : Direction) : Gate :=
  (((g.modify (·.setDirection direction)).record (.start direction)).record .notify).tick

/-- The plan of a movement that starts now. -/
def initialDrive (g : Gate) (direction : Direction) : Drive where
  direction := direction
  aPhase := plan g.a direction g.now
  bPhase := plan g.b direction g.now
  moved := false

/-- `Gate::drive`, up to its first await. -/
def drive (g : Gate) (direction : Direction) : Task :=
  match g.controls.blocked direction with
  | some _ => g.endStep none
  | none =>
    let g := g.begin direction
    g.driveLoop (g.initialDrive direction)

/-- `Gate::step`, once it has a command. -/
def execute (g : Gate) (command : GateCommand) : Task :=
  match g.controls.resolveImpulse command with
  | .open => g.drive .opening
  | .close => g.drive .closing
  | .stop | .impulse => ((g.stopLeaf .a).stopLeaf .b).endStep none

def takeCommand (g : Gate) : Gate := g.modify ({ · with command := none })

def takeBarrierChanged (g : Gate) : Gate := g.modify ({ · with barrierChanged := none })

def takeWindLockReset (g : Gate) : Gate := g.modify ({ · with windLockReset := none })

end Gate

/-- The poll goes on, unless the step is over. -/
def Task.proceed (t : Task) : Turn Task :=
  match t.await with
  | .settled _ => .halt t
  | _ => .again t

/-- What a command other than one for the same direction hands back from `drive`. -/
def handedBack : GateCommand → Option GateCommand
  | .stop | .impulse => none
  | command => some command

namespace Gate

/-- Polls the `select` of `step`. -/
def idleSelect (g : Gate) : Turn Task :=
  match g.controls.command with
  | some command => (g.takeCommand.execute command).proceed
  | none =>
    match g.controls.windLockReset with
    | some () => (g.takeWindLockReset.endStep none).proceed
    | none => .halt { gate := g, await := .idle }

/-- Polls the signals in the `select4` of `drive`, once its timer is not ready. -/
def driveSelectSignals (g : Gate) (dr : Drive) (deadline : Instant) : Turn Task :=
  match g.controls.command with
  | some command =>
    if command = commandFor dr.direction then (g.takeCommand.driveLoop dr).proceed
    else ((g.takeCommand.endDrive dr).endStep (handedBack command)).proceed
  | none =>
    match g.controls.barrierChanged with
    | some () => (g.takeBarrierChanged.driveLoop dr).proceed
    | none =>
      match g.controls.windLockReset with
      | some () => ((g.takeWindLockReset.record .notify).driveLoop dr).proceed
      | none => .halt { gate := g, await := .moving dr deadline true }

/-- Polls the `select4` of `drive`. Its timer reads the clock only if it was polled before. -/
def driveSelect (g : Gate) (dr : Drive) (deadline : Instant) (yielded : Bool) : Turn Task :=
  if yielded then
    if deadline ≤ g.tick.now then (g.tick.driveLoop dr).proceed else g.tick.driveSelectSignals dr deadline
  else g.driveSelectSignals dr deadline

end Gate

/-- One turn of the task: polls what it waits on and, if that is ready, runs on to the next await. -/
def Task.advance (t : Task) : Turn Task :=
  match t.await with
  | .settled _ =>
    match t.gate.pending with
    | some command => ({ t.gate with pending := none }.execute command).proceed
    | none => t.gate.idleSelect
  | .idle => t.gate.idleSelect
  | .moving dr deadline yielded => t.gate.driveSelect dr deadline yielded

/-- The signals the gate waits on that are set: each turn of a poll but the first takes one. -/
def Controls.signals (c : Controls) : Nat :=
  c.command.isSome.toNat + c.barrierChanged.isSome.toNat + c.windLockReset.isSome.toNat

/-- One poll of the task: the step in progress, or the next one, runs until it is suspended or over. -/
def Task.poll (t : Task) : Task := Machine.loop Task.advance (t.gate.controls.signals + 2) t

/-- `Gate::new`, with a task that has not begun its first step. -/
def Gate.new (bd : Board) (a : Motor .a) (b : Motor .b) (initialWindLocked : Bool) : Task :=
  let bd := bd.modify ({ · with windLocked := initialWindLocked })
  { board := bd, a := a, b := b, pending := none : Gate }.endStep (if initialWindLocked then some .open else none)

end GateLink
