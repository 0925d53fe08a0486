import GateLink.Messages

/-!
# Discovery configs

What Home Assistant is told about the entities of the gate (`discovery.rs` of `app-core`): a retained config for each, as JSON, and an
empty payload that removes an entity there is no more.
-/

namespace GateLink

/-- A string in JSON. None of the strings here has a character that is escaped. -/
def jsonString (s : String) : String := "\"" ++ s ++ "\""

/-- An object in JSON: its fields with their values. -/
def jsonObject (fields : List (String × String)) : String :=
  "\x7b" ++ ",".intercalate (fields.map fun field => jsonString field.1 ++ ":" ++ field.2) ++ "\x7d"

/-- `CARGO_PKG_VERSION`: shown as the firmware version of the device. -/
def cargoPkgVersion : String := "0.1.0"

def device (swVersion : String) : String :=
  jsonObject
    [("identifiers", "[" ++ jsonString nodeId ++ "]"), ("name", jsonString "Gate"), ("manufacturer", jsonString "mqtt_gate"),
      ("model", jsonString "ESP32-S3 Gate Controller"), ("sw_version", jsonString swVersion)]

/-- `CoverConfig` -/
def coverConfig (swVersion : String) : String :=
  jsonObject
    [("name", jsonString "gate"), ("unique_id", jsonString "mqtt_gate_cover"), ("device_class", jsonString "gate"),
      ("command_topic", jsonString coverCommandTopic), ("state_topic", jsonString coverStateTopic), ("payload_open", jsonString "OPEN"),
      ("payload_close", jsonString "CLOSE"), ("payload_stop", jsonString "STOP"), ("state_open", jsonString CoverState.open.payload),
      ("state_opening", jsonString CoverState.opening.payload), ("state_closed", jsonString CoverState.closed.payload),
      ("state_closing", jsonString CoverState.closing.payload), ("device", device swVersion)]

/-- `BinarySensorConfig` of the wind lock. -/
def windConfig (swVersion : String) : String :=
  jsonObject
    [("name", jsonString "Wind Monitor Input"), ("unique_id", jsonString "mqtt_gate_wind"), ("device_class", jsonString "safety"),
      ("state_topic", jsonString windStateTopic), ("payload_on", jsonString (onOff true)), ("payload_off", jsonString (onOff false)),
      ("device", device swVersion)]

/-- `SwitchConfig` of the barrier bypass. -/
def barrierBypassConfig (swVersion : String) : String :=
  jsonObject
    [("name", jsonString "Light Barrier Bypass"), ("unique_id", jsonString "mqtt_gate_barrier_bypass"),
      ("command_topic", jsonString barrierBypassCommandTopic), ("state_topic", jsonString barrierBypassStateTopic),
      ("payload_on", jsonString (onOff true)), ("payload_off", jsonString (onOff false)), ("device", device swVersion)]

/-- `ButtonConfig` of the wind lock reset. -/
def resetAnemometerConfig (swVersion : String) : String :=
  jsonObject
    [("name", jsonString "Reset Windmonitor"), ("unique_id", jsonString "mqtt_gate_reset_anemometer"),
      ("command_topic", jsonString buttonCommandTopic), ("payload_press", jsonString resetWindLockPayload), ("device", device swVersion)]

/-- Every discovery config: topics with payloads. -/
def configs (swVersion : String) : List (String × String) :=
  [(coverConfigTopic, coverConfig swVersion), (windConfigTopic, windConfig swVersion), (spareInputConfigTopic, ""),
    (barrierBypassConfigTopic, barrierBypassConfig swVersion), (buttonConfigTopic, resetAnemometerConfig swVersion)]

end GateLink
