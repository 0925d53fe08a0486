import GateLink.Motor

/-!
# The installation

The timing constants of the gate this firmware is built for (`gate_config.rs`). Leaf A opens first and closes second, leaf B the
other way around. Nothing is proved of these values in particular: they are the settings that runs are shown at.
-/

namespace GateLink

/-- `Duration::from_secs`. -/
def fromSecs (s : Nat) : Duration := fromMillis (s * 1000)

/-- `LEAF_A`: opens first, closes second. -/
def leafA : LeafTiming where
  openInitialDelay := fromSecs 0
  openDuration := fromSecs 15
  closeInitialDelay := fromSecs 3
  closeDuration := fromSecs 15

/-- `LEAF_B`: opens second, closes first. -/
def leafB : LeafTiming where
  openInitialDelay := fromSecs 3
  openDuration := fromSecs 15
  closeInitialDelay := fromSecs 0
  closeDuration := fromSecs 15

/-- `END_STOP_OVERRUN`. -/
def endStopOverrun : Duration := fromSecs 1

/-- `REVERSE_PAUSE`. -/
def reversePause : Duration := fromMillis 1000

/-- The settings of a leaf of the installation, with the position restored from flash. -/
def settingsOf (timing : LeafTiming) (position : U8) : MotorSettings where
  timing := timing
  endStopOverrun := endStopOverrun
  reversePause := reversePause
  initialPosition := position

end GateLink
