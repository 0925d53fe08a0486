import GateLink.Board

/-!
# Motor

One gate leaf driven by an open relay and a close relay (`motor.rs`). There is no position sensor: the position is a
time-based estimate. A motor belongs to a leaf, which names its two pins; the pins' levels are the board's.
-/

namespace GateLink

/-- A `u8`. -/
abbrev U8 : Type := Fin 256

instance U8.neZero : @NeZero Nat Zero.ofOfNat0 256 := ⟨by decide⟩

/-- `u8::saturating_add` -/
def saturatingAdd (x : U8) (n : Nat) : U8 := ⟨min (x.val + n) 255, by omega⟩

/-- `u8::saturating_sub` -/
def saturatingSub (x : U8) (n : Nat) : U8 := ⟨x.val - n, by omega⟩

/-- `LeafTiming`. -/
structure LeafTiming where
  openInitialDelay : Duration
  openDuration : Duration
  closeInitialDelay : Duration
  closeDuration : Duration
  deriving DecidableEq, Repr

/-- Which relay is energized, and since when. -/
inductive MotorState where
  | idle
  | running (direction : Direction) (since : Instant)
  deriving DecidableEq, Repr

/-- What a motor is built from: the timing of its leaf, the two constants and the position restored from flash. -/
structure MotorSettings where
  timing : LeafTiming
  endStopOverrun : Duration
  reversePause : Duration
  initialPosition : U8
  deriving DecidableEq, Repr

/-- `Motor`, for one leaf. -/
structure Motor (leaf : Leaf) where
  position : U8
  timing : LeafTiming
  endStopOverrun : Duration
  reversePause : Duration
  state : MotorState
  stoppedAt : Option Instant
  deriving DecidableEq

namespace Motor

variable {leaf : Leaf}

def openPin (_ : Motor leaf) : Pin := ⟨leaf, .opening⟩

def closePin (_ : Motor leaf) : Pin := ⟨leaf, .closing⟩

/-- `Motor::new`: releases both relays. -/
def new (leaf : Leaf) (s : MotorSettings) (bd : Board) : Motor leaf × Board :=
  ({ position := s.initialPosition, timing := s.timing, endStopOverrun := s.endStopOverrun,
     reversePause := s.reversePause, state := .idle, stoppedAt := none },
    (bd.setLow ⟨leaf, .opening⟩).setLow ⟨leaf, .closing⟩)

def fullDuration (m : Motor leaf) : Direction → Duration
  | .opening => m.timing.openDuration
  | .closing => m.timing.closeDuration

def initialDelay (m : Motor leaf) : Direction → Duration
  | .opening => m.timing.openInitialDelay
  | .closing => m.timing.closeInitialDelay

/-- Earliest instant this motor may be energized again. -/
def readyAt (m : Motor leaf) : Instant :=
  match m.stoppedAt with
  | some stoppedAt => stoppedAt + m.reversePause
  | none => 0

/-- How far the leaf is from its end in a direction. -/
def remaining (m : Motor leaf) : Direction → Nat
  | .opening => 255 - m.position.val
  | .closing => m.position.val

/-- How long this leaf has to run to reach its end, including the overrun; `none` if it is already there. -/
def runTime (m : Motor leaf) (direction : Direction) : Option Duration :=
  if m.remaining direction = 0 then none
  else some (fromMillis (asMillis (m.fullDuration direction) * m.remaining direction / 255) + m.endStopOverrun)

/-- The distance `settle` credits for a run of a given length. -/
def travelled (m : Motor leaf) (direction : Direction) (elapsed : Duration) : Nat :=
  min (asMillis elapsed * 255 / max (asMillis (m.fullDuration direction)) 1) 255

/-- Moves the position estimate by a distance. -/
def moveBy (m : Motor leaf) (direction : Direction) (distance : Nat) : U8 :=
  match direction with
  | .opening => saturatingAdd m.position distance
  | .closing => saturatingSub m.position distance

/-- `Motor::settle`: releases both relays and brings the position up to date, if a relay was energized. -/
def settle (m : Motor leaf) (bd : Board) : Motor leaf × Board :=
  match m.state with
  | .idle => (m, bd)
  | .running direction start =>
    let bd := ((bd.setLow m.openPin).setLow m.closePin).tick
    let now := bd.now
    ({ m with
        state := .idle
        stoppedAt := some now
        position := m.moveBy direction (m.travelled direction (now - start)) }, bd)

/-- `Motor::start`: releases the opposite relay before energizing this one. -/
def start (m : Motor leaf) (direction : Direction) (bd : Board) : Motor leaf × Board :=
  let settled := m.settle bd
  let bd :=
    match direction with
    | .opening => (settled.2.setLow m.closePin).setHigh m.openPin
    | .closing => (settled.2.setLow m.openPin).setHigh m.closePin
  let bd := bd.tick
  ({ settled.1 with state := .running direction bd.now }, bd)

def stop (m : Motor leaf) (bd : Board) : Motor leaf × Board := m.settle bd

end Motor

end GateLink
