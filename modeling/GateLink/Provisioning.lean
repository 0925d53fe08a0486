import GateLink.Mqtt.Connection

/-!
# Provisioning

The path of a configuration: the form of the provisioning page as a browser submits it, its validation (`config.rs`), the record it
is stored as (`storage.rs`) and the CONNECT packet that is built from it (`mqtt_client.rs`), with the three buffers that these have to
fit.
-/

namespace GateLink

/-- `str::len` -/
def byteLen (s : String) : Nat := (utf8 s).length

/-! ## The form and its validation -/

def maxSsidLen : Nat := 32

def maxPskLen : Nat := 64

def maxHostLen : Nat := 128

def maxCredLen : Nat := 64

/-- `AppConfig` -/
structure AppConfig where
  wifiSsid : String
  wifiPassword : String
  mqttHost : String
  mqttPort : UInt16
  mqttUsername : Option String
  mqttPassword : Option String
  deriving DecidableEq, Repr

/-- `SubmittedForm` -/
structure SubmittedForm where
  ssid : String
  wifiPassword : String
  mqttHost : String
  mqttPort : UInt16
  mqttUsername : String
  mqttPassword : String
  deriving DecidableEq, Repr

/-- `(!s.is_empty()).then_some(s)` -/
def nonEmpty (s : String) : Option String := if s = "" then none else some s

/-- `SubmittedForm::into_config` -/
def SubmittedForm.intoConfig (f : SubmittedForm) : Except String AppConfig :=
  if f.ssid = "" then .error "SSID must not be empty"
  else if maxSsidLen < byteLen f.ssid then .error "SSID is too long"
  else if maxPskLen < byteLen f.wifiPassword then .error "Wi-Fi password is too long"
  else if f.mqttHost = "" then .error "MQTT host must not be empty"
  else if maxHostLen < byteLen f.mqttHost then .error "MQTT host is too long"
  else if maxCredLen < byteLen f.mqttUsername ∨ maxCredLen < byteLen f.mqttPassword then .error "MQTT credentials are too long"
  else
    .ok { wifiSsid := f.ssid, wifiPassword := f.wifiPassword, mqttHost := f.mqttHost, mqttPort := f.mqttPort,
          mqttUsername := nonEmpty f.mqttUsername, mqttPassword := nonEmpty f.mqttPassword }

/-! ## The body a browser sends -/

/-- The size of `http_buffer`. -/
def httpBufferLen : Nat := 1024

/-- An uppercase hexadecimal digit. -/
def hexDigit (n : Nat) : UInt8 := UInt8.ofNat (if n < 10 then 48 + n else 55 + n)

/-- One byte of a value: as it is, or `+` for a space, or `%XX`. -/
def encodeByte (unreserved : UInt8 → Bool) (b : UInt8) : Bytes :=
  if unreserved b then [b] else if b = 0x20 then [0x2B] else [0x25, hexDigit (b.toNat / 16), hexDigit (b.toNat % 16)]

def urlencode (unreserved : UInt8 → Bool) (s : String) : Bytes := (utf8 s).flatMap (encodeByte unreserved)

/-- `name=value` -/
def formField (name : String) (value : Bytes) : Bytes := utf8 name ++ 0x3D :: value

/-- The body of a submission, with the names and the order of the fields of `form_page`. -/
def SubmittedForm.body (unreserved : UInt8 → Bool) (f : SubmittedForm) : Bytes :=
  List.intercalate [0x26]
    [formField "ssid" (urlencode unreserved f.ssid),
      formField "wifi_password" (urlencode unreserved f.wifiPassword),
      formField "mqtt_host" (urlencode unreserved f.mqttHost),
      formField "mqtt_port" (utf8 (toString f.mqttPort.toNat)),
      formField "mqtt_username" (urlencode unreserved f.mqttUsername),
      formField "mqtt_password" (urlencode unreserved f.mqttPassword)]

/-- What browsers leave as it is in a form: letters, digits and `*-._`. -/
def browserUnreserved (b : UInt8) : Bool :=
  (0x30 ≤ b && b ≤ 0x39) || (0x41 ≤ b && b ≤ 0x5A) || (0x61 ≤ b && b ≤ 0x7A) || b = 0x2A || b = 0x2D || b = 0x2E || b = 0x5F

/-! ## The record in flash -/

/-- `DATA_BUFFER_LEN` -/
def dataBufferLen : Nat := 512

/-- `CONFIG_KEY` -/
def configKey : UInt8 := 1

/-- A varint of postcard has the format of a variable-byte integer: base 128, the lowest digit first. -/
def postcardVarint (n : Nat) : Bytes := writeVariableByteInteger n

def postcardStr (s : String) : Bytes := postcardVarint (byteLen s) ++ utf8 s

def postcardOption : Option String → Bytes
  | none => [0]
  | some s => 1 :: postcardStr s

/-- The record of a configuration, without its key. -/
def AppConfig.toPostcard (c : AppConfig) : Bytes :=
  postcardStr c.wifiSsid ++ (postcardStr c.wifiPassword ++ (postcardStr c.mqttHost ++ (postcardVarint c.mqttPort.toNat ++
    (postcardOption c.mqttUsername ++ postcardOption c.mqttPassword))))

/-! ## The CONNECT packet -/

/-- What `with_credentials` is called with, if it is. -/
def AppConfig.credentials (c : AppConfig) : Option (String × Bytes) :=
  match c.mqttUsername, c.mqttPassword with
  | some username, some password => some (username, utf8 password)
  | _, _ => none

/-- The packet that `client.connect` sends with these credentials. -/
def connectPacket (credentials : Option (String × Bytes)) : Connect where
  cleanSession := true
  keepAlive := keepAlive / fromSecs 1
  clientId := "mqtt_gate"
  username := credentials.map Prod.fst
  password := credentials.map Prod.snd

/-- It is the packet that the MQTT task sends once its TCP connection is up. -/
theorem Mqtt.openConnection_eq (s : Mqtt) :
    s.openConnection =
      ({ s with client := { Client.new s.now with state := .connecting }, sent := [], stream := [] } : Mqtt).write
        (.connect (connectPacket s.credentials)) := rfl

end GateLink
