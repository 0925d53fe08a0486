import GateLink.Mqtt.Steps
import GateLink.Provisioning

/-!
# What the MQTT task does

The other half of `Mqtt.Steps`: what the task does, with its client, its timer and what it passes on. `Does s io s'` lists it in full for
the steps after which there is a connection, and `step_does` is where the step function is taken apart, once. Events other than a step leave
the task alone (`next_alike`), so that an invariant of the task is a case analysis of `Does` (`after_task_rule`).
-/

namespace GateLink

open Machine

/-- The id that is acknowledged once the message was received: the one of a message that is delivered at least once. -/
def Publish.ackId (p : Publish) : Option Nat := if p.qos = .atLeastOnce then p.packetId else none

/-- The message that a `Publish` brings. -/
def Publish.incoming (p : Publish) : IncomingMessage := { topic := p.topic, payload := p.payload }

namespace Mqtt

/-- The poll of the client is pending: in `next_packet`, with no packet there, or in a write of its own. -/
def PollPends (s : Mqtt) : Prop :=
  s.place = .polling ∧ completePacketLen s.client.rx = .ok none ∨ ∃ w rest, s.place = .writing w rest ∧ w.inPoll = true

/-- There is a connection then. -/
theorem PollPends.online {s : Mqtt} (h : s.PollPends) : s.place.Online := by
  obtain ⟨hplace, -⟩ | ⟨w, rest, hplace, -⟩ := h <;> (rw [hplace]; trivial)

/-- The timer of the connection loop is due. -/
def TimerDue (s : Mqtt) : Prop := s.timerPolled = true ∧ s.timer ≤ s.now

/-- What the task does in one step. -/
inductive Does (s : Mqtt) (io : Io) : Mqtt → Prop
  /-- The connection ends, or does not come up. -/
  | ends {s' : Mqtt} (hplace : ¬s'.place.Online) (hincoming : s'.incoming = s.incoming) : Does s io s'
  | opens {bytes : Bytes} (hplace : s.place = .offline) (hio : io = .opened)
      (he : (Packet.connect (connectPacket s.credentials)).encode = .ok bytes) :
      Does s io
        { s with client := { Client.new s.now with state := .connecting }, sent := [], stream := [],
                 place := .writing (.connect (connectPacket s.credentials)) bytes }
  /-- `next_packet` gets some data. -/
  | receives {b : UInt8} {bytes : Bytes} (hplace : s.place = .connAck ∨ s.place = .polling) (hlen : completePacketLen s.client.rx = .ok none)
      (hroom : s.client.rx.length ≠ mqttBufferSize) (hio : io = .data (b :: bytes)) :
      Does s io { s with client := s.client.receive (b :: bytes) }
  /-- The broker has accepted the connection. -/
  | connects {len : Nat} (hplace : s.place = .connAck) (hlen : completePacketLen s.client.rx = .ok (some len))
      (haccepts : answer (s.client.rx.take len) = .accepted) :
      Does s io
        { s with client := { s.client with rxConsumed := len, state := .connected, lastTxTime := s.now }, subQueue := [],
                 place := .resubscribing s.subscriptions }
  | resubscribes {sub : Subscription} {rest : List Subscription} {bytes : Bytes} (hplace : s.place = .resubscribing (sub :: rest))
      (he : (Packet.subscribe (s.takePacketId.subscribePacket sub)).encode = .ok bytes) :
      Does s io { s.takePacketId with place := .writing (.resubscribe (s.takePacketId.subscribePacket sub) rest) bytes }
  | signals (hplace : s.place = .resubscribing []) : Does s io { s with outgoing := [], connected := some (), place := .looping }
  /-- The connection loop goes around, and nothing is to be sent. -/
  | polls (hplace : s.place = .looping) (hearly : s.now - s.client.lastTxTime < keepAlive) :
      Does s io
        { s with timer := s.now + keepAliveCheck, timerPolled := false, client := s.client.dropConsumed, place := .polling }
  | pings (hplace : s.place = .looping) (hdue : keepAlive ≤ s.now - s.client.lastTxTime) :
      Does s io { s with timer := s.now + keepAliveCheck, timerPolled := false, place := .writing .ping [0xC0, 0x00] }
  /-- `client.poll()` has found a packet that is no PUBLISH. -/
  | skips {len : Nat} (hplace : s.place = .polling) (hlen : completePacketLen s.client.rx = .ok (some len))
      (hheader : s.client.rx.headD 0 / 16 ≠ 3) : Does s io { s with client := { s.client with rxConsumed := len }, place := .looping }
  | acks {len : Nat} {p : Publish} {packetId : Nat} {bytes : Bytes} (hplace : s.place = .polling)
      (hlen : completePacketLen s.client.rx = .ok (some len)) (hheader : s.client.rx.headD 0 / 16 = 3)
      (hdecode : Publish.decode (s.client.rx.take len) = .ok p) (hid : p.ackId = some packetId)
      (he : (Packet.pubAck { packetId := packetId }).encode = .ok bytes) :
      Does s io { s with place := .writing (.ack { packetId := packetId } len p.incoming) bytes }
  | delivers {len : Nat} {p : Publish} (hplace : s.place = .polling) (hlen : completePacketLen s.client.rx = .ok (some len))
      (hheader : s.client.rx.headD 0 / 16 = 3) (hdecode : Publish.decode (s.client.rx.take len) = .ok p) (hid : p.ackId = none) :
      Does s io (s.deliver len p.incoming)
  /-- A message is taken from the queue: it gets a packet id, unless it is delivered at most once. -/
  | publishes {m : OutgoingMessage} {rest : List OutgoingMessage} {client : Client} {packetId : Option Nat} {bytes : Bytes}
      (hplace : s.PollPends) (hio : io = .pending) (hout : s.outgoing = m :: rest)
      (hid : m.qos = .atMostOnce ∧ client = s.client ∧ packetId = none ∨
        m.qos ≠ .atMostOnce ∧ client = s.client.takePacketId ∧ packetId = some client.nextPacketId)
      (he : (Packet.publish (publishPacket m packetId)).encode = .ok bytes) :
      Does s io { s with outgoing := rest, client := client, place := .writing (.publish (publishPacket m packetId)) bytes }
  | subscribes {sub : Subscription} {rest : List Subscription} {bytes : Bytes} (hplace : s.PollPends) (hio : io = .pending)
      (hout : s.outgoing = []) (hqueue : s.subQueue = sub :: rest)
      (he : (Packet.subscribe (s.takePacketId.subscribePacket sub)).encode = .ok bytes) :
      Does s io { s.takePacketId with subQueue := rest, place := .writing (.subscribe (s.takePacketId.subscribePacket sub)) bytes }
  /-- The timer is due, and the poll of the client is dropped. -/
  | rings (hplace : s.PollPends) (hio : io = .pending) (hout : s.outgoing = []) (hqueue : s.subQueue = []) (hdue : s.TimerDue) :
      Does s io { s with place := .looping }
  /-- The task waits in `select3`. -/
  | waits (hplace : s.PollPends) (hio : io = .pending) (hout : s.outgoing = []) (hqueue : s.subQueue = []) (hdue : ¬s.TimerDue) :
      Does s io { s with timerPolled := true, running := false }
  /-- The task waits, outside of `select3`. -/
  | suspends (hplace : s.place ≠ .polling)
      (hwaits : io = .pending ∧ (∀ message, s.place ≠ .delivering message) ∨
        ∃ message, s.place = .delivering message ∧ ¬s.incoming.length < queueDepth) : Does s io s.suspend
  | accepts {w : Writing} {rest : Bytes} {n : Nat} (hplace : s.place = .writing w rest) (hn : rest.drop n ≠ []) (hio : io = .accept n) :
      Does s io { s with stream := s.stream ++ rest.take n, place := .writing w (rest.drop n) }
  /-- A packet is out. -/
  | completes {w : Writing} {rest : Bytes} (hplace : s.place = .writing w rest) :
      Does s io (({ s with stream := s.stream ++ rest } : Mqtt).written w)
  /-- A message is passed on. -/
  | puts {message : IncomingMessage} (hplace : s.place = .delivering message) (hroom : s.incoming.length < queueDepth) :
      Does s io { s with incoming := s.incoming ++ [message], place := .looping }
  /-- The network does what the task does not wait for. -/
  | idles (hio : ∀ bytes, io = .data bytes → s.place ≠ .connAck ∧ s.place ≠ .polling)
      (hplace : ∀ message, s.place ≠ .delivering message) :
      Does s io s

section Task

variable {s : Mqtt} {io : Io}

/-- A connection can be lost in every step. -/
theorem lose_does : Does s io s.lose := .ends id rfl

/-- A packet that is encoded begins to be written; with any other, the connection is lost. -/
theorem write_does {v : Mqtt} {w : Writing} (hincoming : s.incoming = v.incoming)
    (hwrites : ∀ bytes, w.packet.encode = .ok bytes → Does v io { s with place := .writing w bytes }) : Does v io (s.write w) := by
  unfold write
  split
  · rename_i bytes he
    exact hwrites bytes he
  · exact .ends id hincoming
  · exact .ends id hincoming

/-- The client sends only while it is connected. -/
theorem sendPacket_does {v : Mqtt} {w : Writing} (hincoming : s.incoming = v.incoming)
    (hwrites : ∀ bytes, w.packet.encode = .ok bytes → Does v io { s with place := .writing w bytes }) : Does v io (s.sendPacket w) := by
  unfold sendPacket
  split
  · exact write_does hincoming hwrites
  · exact .ends id hincoming

/-- The answer to CONNECT is accepted, or ends the connection. -/
theorem connectAnswered_does {len : Nat} (hplace : s.place = .connAck) (hlen : completePacketLen s.client.rx = .ok (some len)) :
    Does s io (s.connectAnswered len) := by
  unfold connectAnswered
  split
  · rename_i haccepts
    exact .connects hplace hlen haccepts
  · exact lose_does
  · exact .ends id rfl

/-- The re-subscription asks for the next one, or is over. -/
theorem resubscribe_does {rest : List Subscription} (hplace : s.place = .resubscribing rest) : Does s io (s.resubscribe rest) := by
  cases rest with
  | nil => exact .signals hplace
  | cons sub rest => exact sendPacket_does (v := s) (s := s.takePacketId) rfl fun _ he => .resubscribes hplace he

/-- The loop polls the client, once it has pinged if that was due. -/
theorem loop_does (hplace : s.place = .looping) : Does s io s.loop := by
  unfold loop
  simp only
  split
  · exact .ends id rfl
  · split
    · rename_i hdue
      refine sendPacket_does (v := s) (s := { s with timer := s.now + keepAliveCheck, timerPolled := false }) rfl fun bytes he => ?_
      cases he
      exact .pings hplace hdue
    · rename_i hearly
      exact .polls hplace (Nat.lt_of_not_le hearly)

/-- A packet of the broker is acknowledged, delivered or skipped. -/
theorem pollPacket_does {len : Nat} (hplace : s.place = .polling) (hlen : completePacketLen s.client.rx = .ok (some len)) :
    Does s io (s.pollPacket len) := by
  unfold pollPacket
  split
  · rename_i hheader
    exact .skips hplace hlen hheader
  · rename_i hheader
    have hpublish : s.client.rx.headD 0 / 16 = 3 := Decidable.not_not.mp hheader
    split
    · exact lose_does
    · rename_i p hdecode
      simp only
      split
      · rename_i packetId hqos hid
        have hack : p.ackId = some packetId := by
          unfold Publish.ackId
          rw [if_pos hqos, hid]
        exact sendPacket_does rfl fun _ he => .acks hplace hlen hpublish hdecode hack he
      · rename_i hnone
        refine .delivers hplace hlen hpublish hdecode ?_
        unfold Publish.ackId
        split
        · rename_i hqos
          cases hid : p.packetId with
          | none => rfl
          | some packetId => exact absurd hid (hnone packetId hqos)
        · rfl

/-- A message is taken from the queue. -/
theorem publish_does {m : OutgoingMessage} {rest : List OutgoingMessage} (hplace : s.PollPends) (hio : io = .pending)
    (hout : s.outgoing = m :: rest) : Does s io ({ s with outgoing := rest }.publish m) := by
  unfold publish
  split
  · rename_i hqos
    exact sendPacket_does rfl fun _ he => .publishes hplace hio hout (Or.inl ⟨hqos, rfl, rfl⟩) he
  · rename_i hqos
    exact sendPacket_does rfl fun _ he => .publishes hplace hio hout (Or.inr ⟨hqos, rfl, rfl⟩) he

/-- With the poll pending, the other arms are looked at in their order. -/
theorem otherArms_does (hplace : s.PollPends) (hio : io = .pending) : Does s io s.otherArms := by
  unfold otherArms
  split
  · rename_i hout
    exact publish_does hplace hio hout
  · rename_i hout hqueue
    exact sendPacket_does (v := s) rfl fun _ he => .subscribes hplace hio hout hqueue he
  · rename_i hout hqueue
    split
    · rename_i hdue
      exact .rings hplace hio hout hqueue hdue
    · rename_i hdue
      exact .waits hplace hio hout hqueue hdue

/-- While a packet is awaited, one is found, or more is received, or the task waits. -/
theorem nextPacket_does {found : Mqtt → Nat → Mqtt} {waits : Mqtt → Mqtt} (hplace : s.place = .connAck ∨ s.place = .polling)
    (hfound : ∀ len, completePacketLen s.client.rx = .ok (some len) → Does s io (found s len))
    (hwaits : completePacketLen s.client.rx = .ok none → io = .pending → Does s io (waits s)) :
    Does s io (s.nextPacket io found waits) := by
  unfold nextPacket
  split
  · exact lose_does
  · rename_i len hlen
    exact hfound len hlen
  · rename_i hlen
    split
    · exact lose_does
    · rename_i hroom
      have hdelivering (message : IncomingMessage) : s.place ≠ .delivering message := by
        rcases hplace with h | h <;> simp [h]
      unfold read
      cases io with
      | data bytes =>
        cases bytes with
        | nil => exact lose_does
        | cons b bytes => exact .receives hplace hlen hroom rfl
      | fail => exact lose_does
      | pending => exact hwaits hlen rfl
      | opened | accept => exact .idles nofun hdelivering

/-- The socket accepts a part of a packet, or all that is left of it. -/
theorem accept_does {w : Writing} {rest : Bytes} {n : Nat} (hplace : s.place = .writing w rest) : Does s (.accept n) (s.accept w rest n) := by
  unfold accept
  simp only
  split
  · rename_i hn
    have hall : rest.take n = rest := List.take_of_length_le (List.drop_eq_nil_iff.mp hn)
    rw [hall]
    exact .completes hplace
  · rename_i hn
    exact .accepts hplace hn rfl

/-- Every step of the task is one of these. -/
theorem step_does (s : Mqtt) (io : Io) : Does s io (s.step io) := by
  unfold step
  split
  · rename_i hplace
    split
    · exact write_does rfl fun _ he => .opens hplace rfl he
    · exact .suspends (by simp [hplace]) (Or.inl ⟨rfl, by simp [hplace]⟩)
    · exact .idles (by simp [hplace]) (by simp [hplace])
  · rename_i w rest hplace
    split
    · exact accept_does hplace
    · exact lose_does
    · split
      · rename_i hw
        exact otherArms_does (Or.inr ⟨w, rest, hplace, hw⟩) rfl
      · exact .suspends (by simp [hplace]) (Or.inl ⟨rfl, by simp [hplace]⟩)
    · exact .idles (by simp [hplace]) (by simp [hplace])
  · rename_i hplace
    exact nextPacket_does (Or.inl hplace) (fun _ => connectAnswered_does hplace)
      fun _ hio => .suspends (by simp [hplace]) (Or.inl ⟨hio, by simp [hplace]⟩)
  · rename_i rest hplace
    exact resubscribe_does hplace
  · rename_i hplace
    exact loop_does hplace
  · rename_i hplace
    exact nextPacket_does (Or.inr hplace) (fun _ => pollPacket_does hplace) fun hlen => otherArms_does (Or.inl ⟨hplace, hlen⟩)
  · rename_i message hplace
    unfold Queue.trySend
    split
    · rename_i incoming hsent
      split at hsent
      · rename_i hroom
        cases hsent
        exact .puts hplace hroom
      · cases hsent
    · rename_i hsent
      split at hsent
      · cases hsent
      · rename_i hroom
        exact .suspends (by simp [hplace]) (Or.inr ⟨message, hplace, hroom⟩)
  · rename_i hplace
    exact .idles (by simp [hplace]) (by simp [hplace])

end Task

/-- The task and its connection are the same in both; if it was running, it still is. -/
structure Alike (s s' : Mqtt) : Prop where
  running : s.running = true → s'.running = true
  now : s.now ≤ s'.now
  credentials : s'.credentials = s.credentials
  place : s'.place = s.place
  client : s'.client = s.client
  timer : s'.timer = s.timer
  timerPolled : s'.timerPolled = s.timerPolled
  sent : s'.sent = s.sent
  stream : s'.stream = s.stream

/-- A task is alike to itself. -/
theorem Alike.refl (s : Mqtt) : s.Alike s := ⟨id, Nat.le_refl _, rfl, rfl, rfl, rfl, rfl, rfl, rfl⟩

/-- The discovery task leaves the task of the client alone. -/
theorem discovery_alike (s : Mqtt) (c : Controls) : s.Alike (s.discovery c) := by
  unfold discovery
  split
  · exact ⟨id, Nat.le_refl _, rfl, rfl, rfl, rfl, rfl, rfl, rfl⟩
  · exact .refl s

/-- A call of `subscribe` leaves it alone. -/
theorem register_alike (s : Mqtt) (sub : Subscription) : s.Alike (s.register sub) := by
  unfold register
  simp only
  split <;> exact ⟨id, Nat.le_refl _, rfl, rfl, rfl, rfl, rfl, rfl, rfl⟩

/-- A call that is resumed leaves it alone. -/
theorem resume_alike (s : Mqtt) (caller : Nat) : s.Alike (s.resume caller) := by
  unfold resume
  split
  · split
    · exact ⟨id, Nat.le_refl _, rfl, rfl, rfl, rfl, rfl, rfl, rfl⟩
    · exact .refl s
  · exact .refl s

/-- What is not a step of the task leaves it alone. -/
theorem next_alike {s : Mqtt} {e : Event} (he : ∀ io, e ≠ .step io) : s.Alike (s.next e) := by
  have hsame : s.Alike s := .refl s
  cases e with
  | sleep d => exact ⟨id, Nat.le_add_right _ _, rfl, rfl, rfl, rfl, rfl, rfl, rfl⟩
  | wake => exact between_rule (P := s.Alike) hsame ⟨fun _ => rfl, Nat.le_refl _, rfl, rfl, rfl, rfl, rfl, rfl, rfl⟩
  | step io => exact absurd rfl (he io)
  | publishState c => exact between_rule (P := s.Alike) hsame ⟨id, Nat.le_refl _, rfl, rfl, rfl, rfl, rfl, rfl, rfl⟩
  | discovery c => exact between_rule (P := s.Alike) hsame (discovery_alike s c)
  | register sub => exact between_rule (P := s.Alike) hsame (register_alike s sub)
  | resume caller => exact between_rule (P := s.Alike) hsame (resume_alike s caller)
  | receive => exact between_rule (P := s.Alike) hsame ⟨id, Nat.le_refl _, rfl, rfl, rfl, rfl, rfl, rfl, rfl⟩

/-- Every event is a step of the task that is running, or leaves the task alone. -/
theorem next_cases (s : Mqtt) (e : Event) :
    (∃ io, e = .step io ∧ s.running = true ∧ Does s io (s.next e)) ∨
      (¬∃ io, e = .step io ∧ s.running = true) ∧ s.Alike (s.next e) := by
  cases e with
  | step io =>
    by_cases hrunning : s.running = true
    · have hstep : s.next (.step io) = s.step io := if_pos hrunning
      rw [hstep]
      exact Or.inl ⟨io, rfl, hrunning, step_does s io⟩
    · have hnothing : s.next (.step io) = s := if_neg hrunning
      rw [hnothing]
      exact Or.inr ⟨fun ⟨_, _, h⟩ => hrunning h, .refl s⟩
  | sleep | wake | publishState | discovery | register | resume | receive => exact Or.inr ⟨by simp, next_alike (by simp)⟩

/-- What the task preserves in every step, and no event changes otherwise, holds after every run. -/
theorem after_task_rule {P : Mqtt → Prop} (hdoes : ∀ s io s', Does s io s' → P s → P s') (halike : ∀ s s', s.Alike s' → P s → P s')
    {credentials : Option (String × Bytes)} (hboot : P (boot credentials)) (events : List Event) : P (after credentials events) := by
  refine run_always (fun s e h => ?_) hboot events
  rcases next_cases s e with ⟨io, -, -, hdoes'⟩ | ⟨-, hsame⟩
  · exact hdoes _ _ _ hdoes' h
  · exact halike _ _ hsame h

end Mqtt

end GateLink
