import GateLink.Controls

/-!
# What the gate means over MQTT

The state messages that mirror the controls to Home Assistant, and what the commands that come in over MQTT call (`mqtt.rs` of
`app-core`).
-/

namespace GateLink

def nodeId : String := "mqtt_gate"

def coverConfigTopic : String := "homeassistant/cover/mqtt_gate/config"

def coverCommandTopic : String := "mqtt_gate/cover/set"

def coverStateTopic : String := "mqtt_gate/cover/state"

def windConfigTopic : String := "homeassistant/binary_sensor/mqtt_gate_wind/config"

def windStateTopic : String := "mqtt_gate/wind/state"

/-- The topic of a sensor that there is no more. -/
def spareInputConfigTopic : String := "homeassistant/binary_sensor/mqtt_gate_spare_input/config"

def barrierBypassConfigTopic : String := "homeassistant/switch/mqtt_gate_barrier_bypass/config"

def barrierBypassCommandTopic : String := "mqtt_gate/barrier_bypass/set"

def barrierBypassStateTopic : String := "mqtt_gate/barrier_bypass/state"

def buttonConfigTopic : String := "homeassistant/button/mqtt_gate_impulse/config"

def buttonCommandTopic : String := "mqtt_gate/impulse/set"

def resetWindLockPayload : String := "reset_anemometer"

/-- The payload of a cover state: `OPEN_STATE`, `OPENING_STATE`, `CLOSED_STATE` or `CLOSING_STATE`. -/
def CoverState.payload : CoverState → String
  | .open => "open"
  | .opening => "opening"
  | .closed => "closed"
  | .closing => "closing"

def onOff (on : Bool) : String := if on then "ON" else "OFF"

/-- The messages for what the gate publishes: topics with payloads. -/
def messagesOf (cover : CoverState) (windLocked barrierBypass : Bool) : List (String × String) :=
  [(coverStateTopic, cover.payload), (windStateTopic, onOff windLocked), (barrierBypassStateTopic, onOff barrierBypass)]

/-- `state_messages`: the retained messages for the current state of the controls. -/
def stateMessages (c : Controls) : List (String × String) := messagesOf c.coverState c.windLocked c.barrierBypass

/-- `Command`: an inbound MQTT command for the gate. -/
inductive Command where
  | «open» | close | stop | resetWindLock
  | setBarrierBypass (active : Bool)
  deriving DecidableEq, Repr

/-- `Command::apply`: the call it makes on the controls. -/
def Command.call : Command → Call
  | .open => .open
  | .close => .close
  | .stop => .stop
  | .resetWindLock => .resetWindLock
  | .setBarrierBypass active => .setBarrierBypass active

end GateLink
