import GateLink.Mqtt.Packet

/-!
# What a broker reads

The other end of the connection: how MQTT 3.1.1 reads the packets that a client sends. This is not translated from the client; it says what
its bytes mean. A packet is a header, the length of its content and the content; nothing may be left over in the content.
-/

namespace GateLink

/-- A two-byte integer. -/
def ofBeBytes (hi lo : UInt8) : Nat := hi.toNat * 256 + lo.toNat

/-- Reads something that a flag says is there. -/
def readIf {α : Type} (flag : Bool) (read : Bytes → Except DecodeError (α × Bytes)) (bytes : Bytes) :
    Except DecodeError (Option α × Bytes) :=
  if flag then do
    let (x, rest) ← read bytes
    .ok (some x, rest)
  else .ok (none, bytes)

def readConnect (content : Bytes) : Except DecodeError Connect := do
  let (protocol, rest) ← readUtf8String content
  match rest with
  | level :: flags :: hi :: lo :: rest =>
    if protocol = "MQTT" ∧ level = 4 then do
      let (clientId, rest) ← readUtf8String rest
      let (username, rest) ← readIf (flags.toNat / 128 % 2 = 1) readUtf8String rest
      let (password, rest) ← readIf (flags.toNat / 64 % 2 = 1) readBinaryData rest
      if rest = [] then
        .ok { cleanSession := flags.toNat / 2 % 2 = 1, keepAlive := ofBeBytes hi lo, clientId := clientId, username := username,
              password := password }
      else .error .malformedPacket
    else .error .malformedPacket
  | _ => .error .malformedPacket

def readPublish (header : UInt8) (content : Bytes) : Except DecodeError Publish := do
  let qos ← readQoS header
  let (topic, rest) ← readUtf8String content
  let (packetId, payload) ← readPacketId qos rest
  .ok { topic := topic, qos := qos, retain := header.toNat % 2 = 1, payload := payload, packetId := packetId }

def readPubAck : Bytes → Except DecodeError PubAck
  | [hi, lo] => .ok { packetId := ofBeBytes hi lo }
  | _ => .error .malformedPacket

/-- The `QoS` that a SUBSCRIBE requests. -/
def readRequestedQoS (b : UInt8) : Except DecodeError QoS :=
  match b.toNat with
  | 0 => .ok .atMostOnce
  | 1 => .ok .atLeastOnce
  | 2 => .ok .exactlyOnce
  | _ => .error .malformedPacket

/-- The topics of a SUBSCRIBE, at most this many. -/
def readTopics : Nat → Bytes → Except DecodeError (List (String × QoS))
  | _, [] => .ok []
  | 0, _ :: _ => .error .malformedPacket
  | bound + 1, bytes => do
    let (topic, rest) ← readUtf8String bytes
    match rest with
    | qos :: rest => do
      let qos ← readRequestedQoS qos
      let topics ← readTopics bound rest
      .ok ((topic, qos) :: topics)
    | [] => .error .malformedPacket

def readSubscribe : Bytes → Except DecodeError Subscribe
  | hi :: lo :: rest => do
    let topics ← readTopics rest.length rest
    .ok { packetId := ofBeBytes hi lo, topics := topics }
  | _ => .error .malformedPacket

/-- The packet with this header and content. -/
def readContent (header : UInt8) (content : Bytes) : Except DecodeError Packet :=
  if header = 0x10 then (readConnect content).map .connect
  else if header.toNat / 16 = 3 then (readPublish header content).map .publish
  else if header = 0x40 then (readPubAck content).map .pubAck
  else if header = 0x82 then (readSubscribe content).map .subscribe
  else if header = 0xC0 ∧ content = [] then .ok .pingReq
  else .error .malformedPacket

/-- The packet at the front of the bytes, and what is behind it. -/
def readPacket : Bytes → Except DecodeError (Packet × Bytes)
  | [] => .error .malformedPacket
  | header :: bytes =>
    match readVariableByteInteger bytes with
    | .complete remainingLen length =>
      let body := bytes.drop length
      if remainingLen ≤ body.length then do
        let packet ← readContent header (body.take remainingLen)
        .ok (packet, body.drop remainingLen)
      else .error .malformedPacket
    | _ => .error .malformedPacket

/-- The packets of a stream, at most this many, and what is behind them. -/
def readPackets : Nat → Bytes → List Packet × Bytes
  | 0, bytes => ([], bytes)
  | bound + 1, bytes =>
    match readPacket bytes with
    | .ok (packet, rest) => (packet :: (readPackets bound rest).1, (readPackets bound rest).2)
    | .error _ => ([], bytes)

end GateLink
