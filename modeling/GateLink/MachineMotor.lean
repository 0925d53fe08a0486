import GateLink.Lib.Checked
import GateLink.Motor

/-!
# The motor in machine integers

The arithmetic of `run_time` and `settle` once more, with the types the source computes with: every operation on a `u64` or a `u8` has a
result only if it does not overflow, and the cast to `u8` only if nothing is cut off.
-/

namespace GateLink

open Checked

/-- `u64::MAX` -/
def u64Max : Nat := 18446744073709551615

/-- `u8::MAX` -/
def u8Max : Nat := 255

namespace Motor

variable {leaf : Leaf}

/-- `run_time`, up to the distance that remains. -/
def remainingChecked (m : Motor leaf) : Direction → Option Nat
  | .opening => sub u8Max m.position.val
  | .closing => some m.position.val

/-- `Motor::run_time`; the outer `none` is an overflow. -/
def runTimeChecked (m : Motor leaf) (direction : Direction) : Option (Option Duration) := do
  let remaining ← m.remainingChecked direction
  if remaining = 0 then some none
  else
    let full := asMillis (m.fullDuration direction)
    let product ← mul u64Max full remaining
    let time ← mul u64Max (product / 255) ticksPerMilli
    let total ← add u64Max time m.endStopOverrun
    some (some total)

/-- The position that `Motor::settle` computes for a run from `start` to `now`; `none` is an overflow. -/
def settledChecked (m : Motor leaf) (direction : Direction) (start now : Instant) : Option U8 := do
  let full := max (asMillis (m.fullDuration direction)) 1
  let elapsed ← sub now start
  let product ← mul u64Max (asMillis elapsed) 255
  let travelled ← fit u8Max (min (product / full) 255)
  some (m.moveBy direction travelled)

end Motor

end GateLink
