import GateLink.Config
import GateLink.Lib.Machine
import GateLink.Lib.Queue
import GateLink.Mqtt.Answer
import GateLink.Mqtt.Discovery
import GateLink.Mqtt.Packet

/-!
# The MQTT connection

The MQTT task (`mqtt_client.rs`, with the client it owns) as a state machine, with the queues it shares with the rest of the firmware. A
`Place` is where the task stands in `run_once`; `Mqtt.step` does what comes next there, with what the socket does. The executor is
cooperative: once it polls the task, nothing else runs until the task is suspended.

A write may be suspended after any part of its bytes was accepted. In the connection loop `select3` polls the client first; if that is
pending, the queues and then the timer are polled, and the one that is ready wins: the poll of the client is dropped, with what it was
writing.
-/

namespace GateLink

structure Subscription where
  topic : String
  qos : QoS
  deriving DecidableEq, Repr

/-- `OutgoingMessage`: a message queued for publishing. -/
structure OutgoingMessage where
  topic : String
  payload : Bytes
  qos : QoS
  retain : Bool
  deriving DecidableEq, Repr

/-- `IncomingMessage`: a message received from the broker. -/
structure IncomingMessage where
  topic : String
  payload : Bytes
  deriving DecidableEq, Repr

/-- `QUEUE_DEPTH` -/
def queueDepth : Nat := 8

/-- `OUTGOING_DEPTH` -/
def outgoingDepth : Nat := 16

/-- `KEEP_ALIVE` -/
def keepAlive : Duration := fromSecs 50

/-- `KEEP_ALIVE_CHECK` -/
def keepAliveCheck : Duration := fromSecs 10

/-- `ConnectionState` -/
inductive ConnectionState where
  | disconnected | connecting | connected
  deriving DecidableEq, Repr

/-- `MqttClient`, without the transport and the send buffer. `rx` is the part of the receive buffer that holds data. -/
structure Client where
  rx : Bytes
  rxConsumed : Nat
  state : ConnectionState
  lastTxTime : Instant
  nextPacketId : Nat
  deriving DecidableEq, Repr

namespace Client

def new (now : Instant) : Client :=
  { rx := [], rxConsumed := 0, state := .disconnected, lastTxTime := now, nextPacketId := 1 }

/-- `get_next_packet_id`: the next one that is not 0. -/
def takePacketId (c : Client) : Client :=
  let next := (c.nextPacketId + 1) % 65536
  { c with nextPacketId := if next = 0 then 1 else next }

/-- Drops the packet handed out last. -/
def dropConsumed (c : Client) : Client := { c with rx := c.rx.drop c.rxConsumed, rxConsumed := 0 }

/-- What `recv` returns goes behind the data there is, as far as there is space for it. -/
def receive (c : Client) (data : Bytes) : Client := { c with rx := c.rx ++ data.take (mqttBufferSize - c.rx.length) }

end Client

/-- What the task writes, with what it needs to go on once that is out. -/
inductive Writing where
  | connect (c : Connect)
  | resubscribe (s : Subscribe) (rest : List Subscription)
  | ping
  | ack (p : PubAck) (len : Nat) (message : IncomingMessage)
  | publish (p : Publish)
  | subscribe (s : Subscribe)
  deriving DecidableEq, Repr

def Writing.packet : Writing → Packet
  | .connect c => .connect c
  | .resubscribe s _ => .subscribe s
  | .ping => .pingReq
  | .ack p _ _ => .pubAck p
  | .publish p => .publish p
  | .subscribe s => .subscribe s

/-- The packet is sent by `client.poll()`, which can be dropped. -/
def Writing.inPoll : Writing → Bool
  | .ping | .ack _ _ _ => true
  | _ => false

/-- Where the task stands. -/
inductive Place where
  /-- There is no connection: before `run_once` has one, and after it has returned. -/
  | offline
  /-- In `write_all`, with the bytes that are not yet accepted. -/
  | writing (w : Writing) (rest : Bytes)
  /-- In `next_packet` of `client.connect()`. -/
  | connAck
  /-- Before the next of the subscriptions that were registered when the connection came up. -/
  | resubscribing (rest : List Subscription)
  /-- At the top of the connection loop. -/
  | looping
  /-- In `next_packet` of `client.poll()`. -/
  | polling
  /-- In `INCOMING.send`. -/
  | delivering (message : IncomingMessage)
  /-- The device has panicked. -/
  | panicked
  deriving DecidableEq, Repr

/-- What the network does when the task turns to it: a connection comes up, some bytes are accepted, data is there to be read (none of
it: the broker has closed the connection), nothing happens, or the connection fails. What the task does not wait for has no effect. -/
inductive Io where
  | opened
  | accept (n : Nat)
  | data (bytes : Bytes)
  | pending
  | fail
  deriving DecidableEq, Repr

/-- The MQTT task and what it shares with the rest of the firmware. `callers` are the calls of `subscribe` that are suspended in
`SUB_QUEUE.send`. The last three fields are what an observer notes: the packets sent on this connection, the oldest first, the bytes the
socket has accepted on it, and the controls at the latest call of `publish_state`. -/
structure Mqtt where
  credentials : Option (String × Bytes)
  now : Instant
  running : Bool
  place : Place
  client : Client
  timer : Instant
  timerPolled : Bool
  subscriptions : List Subscription
  subQueue : List Subscription
  callers : List Subscription
  outgoing : List OutgoingMessage
  connected : Signal Unit
  incoming : List IncomingMessage
  sent : List Packet
  stream : Bytes
  published : Option Controls

namespace Mqtt

/-! ## The task -/

/-- The task is suspended. -/
def suspend (s : Mqtt) : Mqtt := { s with running := false }

/-- `run_once` returns with an error, and the task waits before it runs it again. -/
def lose (s : Mqtt) : Mqtt := { s with place := .offline, running := false }

/-- The task panics: nothing is done any more until the device has rebooted. -/
def crash (s : Mqtt) : Mqtt := { s with place := .panicked, running := false }

/-- Encodes a packet and begins to write it. -/
def write (s : Mqtt) (w : Writing) : Mqtt :=
  match w.packet.encode with
  | .ok bytes => { s with place := .writing w bytes }
  | .error .outOfBounds => s.crash
  | .error _ => s.lose

/-- `_send_packet` -/
def sendPacket (s : Mqtt) (w : Writing) : Mqtt := if s.client.state = .connected then s.write w else s.lose

def takePacketId (s : Mqtt) : Mqtt := { s with client := s.client.takePacketId }

/-- The packet that `client.publish` sends. -/
def publishPacket (m : OutgoingMessage) (packetId : Option Nat) : Publish :=
  { topic := m.topic, qos := m.qos, retain := m.retain, payload := m.payload, packetId := packetId }

/-- `client.publish` -/
def publish (s : Mqtt) (m : OutgoingMessage) : Mqtt :=
  if m.qos = .atMostOnce then s.sendPacket (.publish (publishPacket m none))
  else
    let s := s.takePacketId
    s.sendPacket (.publish (publishPacket m (some s.client.nextPacketId)))

/-- The packet that `client.subscribe` sends. -/
def subscribePacket (s : Mqtt) (sub : Subscription) : Subscribe :=
  { packetId := s.client.nextPacketId, topics := [(sub.topic, sub.qos)] }

/-- `client.subscribe`, for a subscription from the queue. -/
def subscribe (s : Mqtt) (sub : Subscription) : Mqtt :=
  let s := s.takePacketId
  s.sendPacket (.subscribe (s.subscribePacket sub))

/-- The TCP connection is up: `client.connect()` sends CONNECT. -/
def openConnection (s : Mqtt) : Mqtt :=
  let s := { s with client := { Client.new s.now with state := .connecting }, sent := [], stream := [] }
  s.write (.connect { cleanSession := true, keepAlive := keepAlive / fromSecs 1, clientId := "mqtt_gate",
                      username := s.credentials.map Prod.fst, password := s.credentials.map Prod.snd })

/-- A packet has come in answer to CONNECT. If it accepts the connection, the queue of subscriptions is drained and the list of all of
them is copied. -/
def connectAnswered (s : Mqtt) (len : Nat) : Mqtt :=
  match answer (s.client.rx.take len) with
  | .accepted =>
    { s with client := { s.client with rxConsumed := len, state := .connected, lastTxTime := s.now }, subQueue := [],
             place := .resubscribing s.subscriptions }
  | .refused => s.lose
  | .panics => s.crash

/-- Re-subscribes. After that, what is queued for publishing is drained, and the app is told of the connection. -/
def resubscribe (s : Mqtt) : List Subscription → Mqtt
  | [] => { s with outgoing := [], connected := some (), place := .looping }
  | sub :: rest =>
    let s := s.takePacketId
    s.sendPacket (.resubscribe (s.subscribePacket sub) rest)

/-- The top of the connection loop: `client.poll()` is called and begins, and so does the timer. -/
def loop (s : Mqtt) : Mqtt :=
  let s := { s with timer := s.now + keepAliveCheck, timerPolled := false }
  if s.client.state ≠ .connected then s.lose
  else if keepAlive ≤ s.now - s.client.lastTxTime then s.sendPacket .ping
  else { s with client := s.client.dropConsumed, place := .polling }

/-- `client.poll()` returns a message, which `run_once` passes on. -/
def deliver (s : Mqtt) (len : Nat) (message : IncomingMessage) : Mqtt :=
  { s with client := { s.client with rxConsumed := len }, place := .delivering message }

/-- `client.poll()` has found a packet. -/
def pollPacket (s : Mqtt) (len : Nat) : Mqtt :=
  if s.client.rx.headD 0 / 16 ≠ 3 then { s with client := { s.client with rxConsumed := len }, place := .looping }
  else
    match Publish.decode (s.client.rx.take len) with
    | .error _ => s.lose
    | .ok publish =>
      let message := { topic := publish.topic, payload := publish.payload }
      match publish.qos, publish.packetId with
      | .atLeastOnce, some packetId => s.sendPacket (.ack { packetId := packetId } len message)
      | _, _ => s.deliver len message

/-- A packet is out. -/
def written (s : Mqtt) (w : Writing) : Mqtt :=
  let s := { s with sent := s.sent ++ [w.packet] }
  let s' := { s with client := { s.client with lastTxTime := s.now } }
  match w with
  | .connect _ => { s with client := { s.client with rx := [], rxConsumed := 0 }, place := .connAck }
  | .resubscribe _ rest => { s' with place := .resubscribing rest }
  | .ping => { s' with client := s'.client.dropConsumed, place := .polling }
  | .ack _ len message => s'.deliver len message
  | .publish _ | .subscribe _ => { s' with place := .looping }

/-- The socket accepts some bytes of what the task writes. -/
def accept (s : Mqtt) (w : Writing) (rest : Bytes) (n : Nat) : Mqtt :=
  let s := { s with stream := s.stream ++ rest.take n }
  if rest.drop n = [] then s.written w else { s with place := .writing w (rest.drop n) }

/-- `client.poll()` is pending: the other arms of `select3`. -/
def otherArms (s : Mqtt) : Mqtt :=
  match s.outgoing, s.subQueue with
  | m :: rest, _ => { s with outgoing := rest }.publish m
  | [], sub :: rest => { s with subQueue := rest }.subscribe sub
  | [], [] =>
    if s.timerPolled ∧ s.timer ≤ s.now then { s with place := .looping } else { s with timerPolled := true, running := false }

/-- `next_packet` reads what the socket has: data, or nothing, in which case the task waits. -/
def read (s : Mqtt) (io : Io) (waits : Mqtt → Mqtt) : Mqtt :=
  match io with
  | .data [] | .fail => s.lose
  | .data (b :: bytes) => { s with client := s.client.receive (b :: bytes) }
  | .pending => waits s
  | _ => s

/-- `next_packet` looks for a packet, and reads if there is none. -/
def nextPacket (s : Mqtt) (io : Io) (found : Mqtt → Nat → Mqtt) (waits : Mqtt → Mqtt) : Mqtt :=
  match completePacketLen s.client.rx with
  | .error _ => s.lose
  | .ok (some len) => found s len
  | .ok none => if s.client.rx.length = mqttBufferSize then s.lose else s.read io waits

/-- What comes next where the task stands, with what the network does. -/
def step (s : Mqtt) (io : Io) : Mqtt :=
  match s.place with
  | .offline =>
    match io with
    | .opened => s.openConnection
    | .pending => s.suspend
    | _ => s
  | .writing w rest =>
    match io with
    | .accept n => s.accept w rest n
    | .fail => s.lose
    | .pending => if w.inPoll then s.otherArms else s.suspend
    | _ => s
  | .connAck => s.nextPacket io connectAnswered suspend
  | .resubscribing rest => s.resubscribe rest
  | .looping => s.loop
  | .polling => s.nextPacket io pollPacket otherArms
  | .delivering message =>
    match Queue.trySend queueDepth s.incoming message with
    | some incoming => { s with incoming := incoming, place := .looping }
    | none => s.suspend
  | .panicked => s

/-! ## The rest of the firmware -/

/-- A message of the gate: delivered at least once, and retained. -/
def retained (message : String × String) : OutgoingMessage :=
  { topic := message.1, payload := utf8 message.2, qos := .atLeastOnce, retain := true }

/-- `mqtt_client::publish`, for one message after the other. -/
def enqueue (s : Mqtt) (messages : List OutgoingMessage) : Mqtt :=
  { s with outgoing := messages.foldl (Queue.force outgoingDepth) s.outgoing }

/-- The messages of `publish_state`. -/
def stateUpdate (c : Controls) : List OutgoingMessage := (stateMessages c).map retained

/-- The messages of `publish_all`. -/
def discoveryConfigs : List OutgoingMessage := (configs cargoPkgVersion).map retained

def publishState (s : Mqtt) (c : Controls) : Mqtt := { s.enqueue (stateUpdate c) with published := some c }

def publishAll (s : Mqtt) : Mqtt := s.enqueue discoveryConfigs

/-- The discovery task is polled. -/
def discovery (s : Mqtt) (c : Controls) : Mqtt :=
  match s.connected with
  | some () => ({ s with connected := none }.publishAll).publishState c
  | none => s

/-- `mqtt_client::subscribe` is called: it is over, or suspended if the queue is full. -/
def register (s : Mqtt) (sub : Subscription) : Mqtt :=
  let s := { s with subscriptions := s.subscriptions ++ [sub] }
  match Queue.trySend queueDepth s.subQueue sub with
  | some subQueue => { s with subQueue := subQueue }
  | none => { s with callers := s.callers ++ [sub] }

/-- A suspended call of `mqtt_client::subscribe` is polled. -/
def resume (s : Mqtt) (caller : Nat) : Mqtt :=
  match s.callers[caller]? with
  | some sub =>
    match Queue.trySend queueDepth s.subQueue sub with
    | some subQueue => { s with subQueue := subQueue, callers := s.callers.eraseIdx caller }
    | none => s
  | none => s

/-- Something happens. What the rest of the firmware does comes with the state of the controls at that moment. -/
inductive Event where
  /-- Time passes. -/
  | sleep (d : Duration)
  /-- The executor polls the MQTT task. -/
  | wake
  /-- The task, being polled, goes on. -/
  | step (io : Io)
  /-- The gate notifies, or executes a command for the bypass: `publish_state`. -/
  | publishState (c : Controls)
  | discovery (c : Controls)
  | register (sub : Subscription)
  | resume (caller : Nat)
  /-- The MQTT handler takes a message. -/
  | receive

/-- What happens between two polls of the MQTT task. -/
def between (s s' : Mqtt) : Mqtt := if s.running ∨ s.place = .panicked then s else s'

def next (s : Mqtt) : Event → Mqtt
  | .sleep d => { s with now := s.now + d }
  | .wake => s.between { s with running := true }
  | .step io => if s.running then s.step io else s
  | .publishState c => s.between (s.publishState c)
  | .discovery c => s.between (s.discovery c)
  | .register sub => s.between (s.register sub)
  | .resume caller => s.between (s.resume caller)
  | .receive => s.between { s with incoming := s.incoming.tail }

def boot (credentials : Option (String × Bytes)) : Mqtt where
  credentials := credentials
  now := 0
  running := false
  place := .offline
  client := Client.new 0
  timer := 0
  timerPolled := false
  subscriptions := []
  subQueue := []
  callers := []
  outgoing := []
  connected := none
  incoming := []
  sent := []
  stream := []
  published := none

/-- The MQTT task after boot and a run of events. -/
def after (credentials : Option (String × Bytes)) (events : List Event) : Mqtt := Machine.run next (boot credentials) events

/-- A connection comes up, with nothing registered: its task is suspended in the connection loop. -/
def comesUp : List Event :=
  [.wake, .step .opened, .step (.accept 512), .step (.data [0x20, 2, 0, 0]), .step .pending, .step .pending, .step .pending,
    .step .pending]

end Mqtt

end GateLink
