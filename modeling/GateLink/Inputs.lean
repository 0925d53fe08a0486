import GateLink.Debounce
import GateLink.Firmware

/-!
# Inputs

The watchers of the inputs of the board (`physical/inputs.rs`), with what `main.rs` wires them to. A button-like input is debounced and
acts once per press; a light barrier is followed all the time. Both are active-low. Every reading of a pin is one step here, with the level
it finds: a watcher of a barrier reads its pin once to begin with, and then in a loop.
-/

namespace GateLink

/-- The inputs with an `edge_task`. -/
inductive Button where
  | pushButton | radioButton | windSensor | windReset | barrierBypassButton
  deriving DecidableEq, Repr

/-- The inputs with a `level_task`. -/
inductive Barrier where
  | lightBarrier1 | lightBarrier2
  deriving DecidableEq, Repr

/-- `EDGE_STABLE_SAMPLES` -/
def edgeStableSamples : U8 := 5

/-- What a press does: an input of the gate, or `arm_barrier_bypass`. -/
def Button.action : Button → Action
  | .pushButton | .radioButton => .input .impulse
  | .windSensor => .input .windTrigger
  | .windReset => .input .resetWindLock
  | .barrierBypassButton => .execute (.setBarrierBypass true)

/-- What is told to the gate about a barrier. -/
def Barrier.setter (active : Bool) : Barrier → Action
  | .lightBarrier1 => .input (.barrier1Set active)
  | .lightBarrier2 => .input (.barrier2Set active)

/-- What a reading of a barrier does, with the level before it, if there was one: a change is told, and so is the first level. -/
def Barrier.readAction (barrier : Barrier) (lastActive : Option Bool) (active : Bool) : Option Action :=
  if lastActive = some active then none else some (barrier.setter active)

end GateLink
