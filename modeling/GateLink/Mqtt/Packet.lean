import GateLink.Lib.Framing

/-!
# MQTT packets

The packets of MQTT 3.1.1 as the client encodes and decodes them (`packet.rs` and `util.rs` of the vendored client). A packet is encoded
into a buffer of fixed size: its content goes after the header and four bytes that are kept for the length, and is then moved up to the
length that was needed. What does not fit is an error or, where the source indexes the buffer, a panic.

Every packet that is encoded is framed: `completePacketLen` finds it at the front of whatever stream begins with it (`encode_framed`).
-/

namespace GateLink

abbrev Bytes : Type := List UInt8

/-- `str::as_bytes` -/
def utf8 (s : String) : Bytes := s.toUTF8.data.toList

/-- `core::str::from_utf8` -/
def fromUtf8 (bytes : Bytes) : Option String := String.fromUTF8? ⟨bytes.toArray⟩

/-- `u16::to_be_bytes` -/
def toBeBytes (n : Nat) : Bytes := [UInt8.ofNat (n / 256), UInt8.ofNat (n % 256)]

/-- `QoS` -/
inductive QoS where
  | atMostOnce | atLeastOnce | exactlyOnce
  deriving DecidableEq, Repr

/-- The number of a `QoS`, as it is on the wire. -/
def QoS.toNat : QoS → Nat
  | .atMostOnce => 0
  | .atLeastOnce => 1
  | .exactlyOnce => 2

/-- Why a packet is not encoded: the errors of the client, and an index out of the buffer, which panics. -/
inductive EncodeError where
  | bufferTooSmall | payloadTooLarge | malformedPacket | outOfBounds
  deriving DecidableEq, Repr

/-- Why a packet is not decoded. -/
inductive DecodeError where
  | malformedPacket | invalidUtf8String
  deriving DecidableEq, Repr

/-! ## Variable-byte integers -/

/-- The loop of `write_variable_byte_integer_len`; every turn but the last divides the value, so there are no more turns than that. -/
def writeDigits : Nat → Nat → Bytes
  | 0, val => [UInt8.ofNat (val % 128)]
  | turns + 1, val =>
    if val / 128 = 0 then [UInt8.ofNat (val % 128)] else UInt8.ofNat (val % 128 + 128) :: writeDigits turns (val / 128)

def writeVariableByteInteger (val : Nat) : Bytes := writeDigits val val

/-- What reading a variable-byte integer comes to: its value and length, the end of the bytes within it, or a fifth byte of it. -/
inductive VarByteInt where
  | complete (value length : Nat)
  | cut
  | tooLong
  deriving DecidableEq, Repr

/-- The loop that reads a variable-byte integer, with at most this many turns to come. -/
def readDigits : (turns length value multiplier : Nat) → Bytes → VarByteInt
  | 0, _, _, _, _ => .tooLong
  | _ + 1, _, _, _, [] => .cut
  | turns + 1, length, value, multiplier, byte :: bytes =>
    let value := value + byte.toNat % 128 * multiplier
    if byte.toNat < 128 then .complete value (length + 1) else readDigits turns (length + 1) value (multiplier * 128) bytes

def readVariableByteInteger (bytes : Bytes) : VarByteInt := readDigits 4 0 0 1 bytes

/-- `complete_packet_len`: the length of the packet at the front, or `none` if not all of it is there. -/
def completePacketLen (buf : Bytes) : Except DecodeError (Option Nat) :=
  match readVariableByteInteger (buf.drop 1) with
  | .cut => .ok none
  | .tooLong => .error .malformedPacket
  | .complete remainingLen length =>
    let total := 1 + length + remainingLen
    .ok (if total ≤ buf.length then some total else none)

/-! ## Encoding -/

/-- `MQTT_BUFFER_SIZE` -/
def mqttBufferSize : Nat := 512

/-- Where the content of a packet starts in the buffer, until its length is known. -/
def contentStart : Nat := 5

/-- Writes at the cursor, which is behind the content so far. -/
def put (e : EncodeError) (data content : Bytes) : Except EncodeError Bytes :=
  if contentStart + content.length + data.length ≤ mqttBufferSize then .ok (content ++ data) else .error e

def writeBinaryData (data content : Bytes) : Except EncodeError Bytes :=
  if 65535 < data.length then .error .payloadTooLarge else put .bufferTooSmall (toBeBytes data.length ++ data) content

def writeUtf8String (s : String) (content : Bytes) : Except EncodeError Bytes := writeBinaryData (utf8 s) content

/-- Writes what is there, if anything. -/
def writeIfSome {α : Type} (write : α → Bytes → Except EncodeError Bytes) (o : Option α) (content : Bytes) : Except EncodeError Bytes :=
  match o with
  | some x => write x content
  | none => .ok content

/-- The packet with its length before the content. -/
def framed (header : UInt8) (content : Bytes) : Bytes := header :: (writeVariableByteInteger content.length ++ content)

/-- `Connect` -/
structure Connect where
  cleanSession : Bool
  keepAlive : Nat
  clientId : String
  username : Option String
  password : Option Bytes
  deriving DecidableEq, Repr

def Connect.flags (c : Connect) : Nat :=
  (if c.cleanSession then 0x02 else 0) + (if c.username.isSome then 0x80 else 0) + if c.password.isSome then 0x40 else 0

def Connect.encode (c : Connect) : Except EncodeError Bytes := do
  let content ← writeUtf8String "MQTT" []
  let content ← put .outOfBounds [4] content
  let content ← put .outOfBounds [UInt8.ofNat c.flags] content
  let content ← put .outOfBounds (toBeBytes c.keepAlive) content
  let content ← writeUtf8String c.clientId content
  let content ← writeIfSome writeUtf8String c.username content
  let content ← writeIfSome writeBinaryData c.password content
  .ok (framed 0x10 content)

/-- `Publish` -/
structure Publish where
  topic : String
  qos : QoS
  retain : Bool
  payload : Bytes
  packetId : Option Nat
  deriving DecidableEq, Repr

/-- Writes the packet id of a `Publish`, if its `QoS` has one. -/
def Publish.writePacketId (p : Publish) (content : Bytes) : Except EncodeError Bytes :=
  if p.qos ≠ .atMostOnce then
    match p.packetId with
    | some packetId => put .bufferTooSmall (toBeBytes packetId) content
    | none => .error .malformedPacket
  else .ok content

def Publish.encode (p : Publish) : Except EncodeError Bytes := do
  let content ← writeUtf8String p.topic []
  let content ← p.writePacketId content
  let content ← put .bufferTooSmall p.payload content
  .ok (framed (UInt8.ofNat (0x30 + 2 * p.qos.toNat + p.retain.toNat)) content)

/-- `PubAck` -/
structure PubAck where
  packetId : Nat
  deriving DecidableEq, Repr

def PubAck.encode (p : PubAck) : Except EncodeError Bytes := .ok (0x40 :: 0x02 :: toBeBytes p.packetId)

/-- `Subscribe` -/
structure Subscribe where
  packetId : Nat
  topics : List (String × QoS)
  deriving DecidableEq, Repr

/-- Writes one topic of a `Subscribe`. -/
def writeTopic (content : Bytes) (topic : String × QoS) : Except EncodeError Bytes := do
  let content ← writeUtf8String topic.1 content
  put .outOfBounds [UInt8.ofNat topic.2.toNat] content

def Subscribe.encode (s : Subscribe) : Except EncodeError Bytes := do
  let content ← put .outOfBounds (toBeBytes s.packetId) []
  let content ← s.topics.foldlM writeTopic content
  .ok (framed 0x82 content)

/-- `PingReq` -/
def encodePingReq : Except EncodeError Bytes := .ok [0xC0, 0x00]

/-- A packet that the client sends. -/
inductive Packet where
  | connect (c : Connect)
  | publish (p : Publish)
  | pubAck (p : PubAck)
  | subscribe (s : Subscribe)
  | pingReq
  deriving DecidableEq, Repr

def Packet.encode : Packet → Except EncodeError Bytes
  | .connect c => c.encode
  | .publish p => p.encode
  | .pubAck p => p.encode
  | .subscribe s => s.encode
  | .pingReq => encodePingReq

/-! ## Decoding -/

/-- `read_binary_data`: the data, and what is behind it. -/
def readBinaryData : Bytes → Except DecodeError (Bytes × Bytes)
  | hi :: lo :: rest =>
    let len := hi.toNat * 256 + lo.toNat
    if len ≤ rest.length then .ok (rest.take len, rest.drop len) else .error .malformedPacket
  | _ => .error .malformedPacket

def readUtf8String (bytes : Bytes) : Except DecodeError (String × Bytes) := do
  let (data, rest) ← readBinaryData bytes
  match fromUtf8 data with
  | some s => .ok (s, rest)
  | none => .error .invalidUtf8String

/-- The packet id of a `Publish`, if its `QoS` has one. -/
def readPacketId (qos : QoS) (bytes : Bytes) : Except DecodeError (Option Nat × Bytes) :=
  if qos ≠ .atMostOnce then
    match bytes with
    | hi :: lo :: rest => .ok (some (hi.toNat * 256 + lo.toNat), rest)
    | _ => .error .malformedPacket
  else .ok (none, bytes)

/-- The `QoS` in the header of a `Publish`. -/
def readQoS (header : UInt8) : Except DecodeError QoS :=
  match header.toNat / 2 % 4 with
  | 0 => .ok .atMostOnce
  | 1 => .ok .atLeastOnce
  | 2 => .ok .exactlyOnce
  | _ => .error .malformedPacket

/-- `Publish::decode`. It is called with a complete packet, which is not empty. -/
def Publish.decode : Bytes → Except DecodeError Publish
  | [] => .error .malformedPacket
  | header :: bytes => do
    let qos ← readQoS header
    match readVariableByteInteger bytes with
    | .complete remainingLen length =>
      let body := bytes.drop length
      if remainingLen ≤ body.length then
        let (topic, rest) ← readUtf8String (body.take remainingLen)
        let (packetId, payload) ← readPacketId qos rest
        .ok { topic := topic, qos := qos, retain := header.toNat % 2 = 1, payload := payload, packetId := packetId }
      else .error .malformedPacket
    | _ => .error .malformedPacket

end GateLink
