import GateLink.Lemmas.Reader
import GateLink.Mqtt.Task

/-!
# What comes in

TCP brings the bytes of the broker in pieces of any size, and a poll of the client can be dropped at any moment. None of this is seen by the
MQTT handler: the messages that are passed on to it are those of the packets that the bytes received on the connection are made of, each
once and in their order, and when the task waits for more, all of them (`delivered_in_order`). A packet is handed out only once its
acknowledgement is out, so that the acknowledgements sent are those of the packets handed out (`acknowledged_in_order`).

What an observer notes is added to the state: the bytes that `recv` has returned on the connection, and the messages put into the queue
of the handler.
-/

namespace GateLink

open Machine Framing

/-- The packets at the front of what was received. -/
def packetsIn (received : Bytes) : List Bytes := (split packetLen received.length received).1

/-- A packet as a PUBLISH, if it is one and can be decoded. -/
def asPublish (packet : Bytes) : Option Publish := if packet.headD 0 / 16 = 3 then (Publish.decode packet).toOption else none

/-- The message that a packet brings. -/
def messageIn (packet : Bytes) : Option IncomingMessage := (asPublish packet).map Publish.incoming

/-- The id that a packet asks to be acknowledged. -/
def idToAck (packet : Bytes) : Option Nat := (asPublish packet).bind Publish.ackId

/-- The id that a packet acknowledges. -/
def Packet.acked : Packet → Option Nat
  | .pubAck p => some p.packetId
  | _ => none

/-- The message that the task has in its hands. -/
def Place.inHand : Place → List IncomingMessage
  | .delivering message => [message]
  | _ => []

namespace Mqtt

/-- A new connection comes up. -/
def Connects (s : Mqtt) (e : Event) : Prop := s.running = true ∧ s.place = .offline ∧ e = .step .opened

/-- A run decides where its connections come up. -/
instance (s : Mqtt) (e : Event) : Decidable (s.Connects e) :=
  match e with
  | .step .opened => decidable_of_iff (s.running = true ∧ s.place = .offline) (by simp [Connects])
  | .step (.accept _) | .step (.data _) | .step .pending | .step .fail | .sleep _ | .wake | .publishState _ | .discovery _ | .register _
  | .resume _ | .receive => isFalse (by simp [Connects])

/-- The bytes that `recv` returns: those there is space for. -/
def reads (s : Mqtt) : Event → Bytes
  | .step (.data bytes) =>
    match completePacketLen s.client.rx with
    | .ok none => if s.running ∧ (s.place = .connAck ∨ s.place = .polling) then bytes.take (mqttBufferSize - s.client.rx.length) else []
    | _ => []
  | _ => []

/-- The message that is put into the queue of the handler. -/
def passes (s : Mqtt) : Event → List IncomingMessage
  | .step _ => if s.running ∧ s.incoming.length < queueDepth then s.place.inHand else []
  | _ => []

end Mqtt

/-- The MQTT task with what was received on this connection, and what was passed on. -/
structure Inbound where
  mqtt : Mqtt
  received : Bytes
  delivered : List IncomingMessage

namespace Inbound

/-- A new connection starts both anew. -/
def next (i : Inbound) (e : Mqtt.Event) : Inbound where
  mqtt := i.mqtt.next e
  received := if i.mqtt.Connects e then [] else i.received ++ i.mqtt.reads e
  delivered := if i.mqtt.Connects e then [] else i.delivered ++ i.mqtt.passes e

/-- A run from boot. -/
def after (credentials : Option (String × Bytes)) (events : List Mqtt.Event) : Inbound :=
  Machine.run next { mqtt := Mqtt.boot credentials, received := [], delivered := [] } events

end Inbound

namespace InboundAux

open Mqtt

/-- Nothing is read where the task does not wait for the broker. -/
theorem reads_of_place {s : Mqtt} (h : s.place ≠ .connAck) (h' : s.place ≠ .polling) (e : Mqtt.Event) : s.reads e = [] := by
  unfold reads
  split
  · split
    · exact if_neg fun ⟨_, hplace⟩ => hplace.elim h h'
    · rfl
  · rfl

/-- Nothing is read while a packet is at the front. -/
theorem reads_found {s : Mqtt} {len : Nat} (h : completePacketLen s.client.rx = .ok (some len)) (e : Mqtt.Event) : s.reads e = [] := by
  unfold reads
  rw [h]
  split <;> rfl

/-- Nothing is passed on without a message in hand. -/
theorem passes_of_place {s : Mqtt} (h : ∀ message, s.place ≠ .delivering message) (e : Mqtt.Event) : s.passes e = [] := by
  unfold passes
  split
  · have hnone : s.place.inHand = [] := by
      unfold Place.inHand
      split
      · exact absurd ‹_› (h _)
      · rfl
    rw [hnone, ite_self]
  · rfl

/-- What was received on a connection, as far as it was handed out. -/
structure Receives (s : Mqtt) (received : Bytes) (delivered : List IncomingMessage) (taken : List Bytes) : Prop where
  stream : Framing.Taken packetLen received taken (s.client.rx.drop s.client.rxConsumed)
  messages : delivered ++ s.place.inHand = taken.filterMap messageIn
  acks : s.sent.filterMap Packet.acked = taken.filterMap idToAck
  unread : ∀ c rest, s.place = .writing (.connect c) rest → received = []
  front : s.place = .connAck ∨ s.place = .polling → s.client.rxConsumed = 0
  /-- A packet is being acknowledged: it is still at the front. -/
  acking : ∀ p len message rest, s.place = .writing (.ack p len message) rest →
    s.client.rxConsumed = 0 ∧ packetLen s.client.rx = some len ∧ messageIn (s.client.rx.take len) = some message ∧
      idToAck (s.client.rx.take len) = some p.packetId
  waiting : s.place = .polling → s.running = false → completePacketLen s.client.rx = .ok none

/-- A packet at the front is neither awaited here nor being acknowledged. -/
def Plain : Place → Prop
  | .connAck | .polling | .writing (.connect _) _ | .writing (.ack _ _ _) _ => False
  | _ => True

variable {s : Mqtt} {received : Bytes} {delivered : List IncomingMessage} {taken : List Bytes}

/-- At the other places, nothing else is to be known. -/
theorem receives_plain (hplain : Plain s.place) (hstream : Framing.Taken packetLen received taken (s.client.rx.drop s.client.rxConsumed))
    (hmessages : delivered ++ s.place.inHand = taken.filterMap messageIn) (hacks : s.sent.filterMap Packet.acked = taken.filterMap idToAck) :
    Receives s received delivered taken := by
  refine ⟨hstream, hmessages, hacks, fun c rest h => ?_, fun h => ?_, fun p len message rest h => ?_, fun h => ?_⟩
  · rw [h] at hplain
    exact hplain.elim
  · rcases h with h | h <;> (rw [h] at hplain; exact hplain.elim)
  · rw [h] at hplain
    exact hplain.elim
  · rw [h] at hplain
    exact hplain.elim

/-- The packet that is found at the front is handed out. -/
theorem Receives.takes (h : Receives s received delivered taken) (hplace : s.place = .connAck ∨ s.place = .polling) {len : Nat}
    (hlen : completePacketLen s.client.rx = .ok (some len)) :
    Framing.Taken packetLen received (taken ++ [s.client.rx.take len]) (s.client.rx.drop len) := by
  have hstream := h.stream
  rw [h.front hplace, List.drop_zero] at hstream
  exact hstream.take packetLen_stable (packetLen_eq_some.mpr hlen)

/-- The first byte of the packet at the front. -/
theorem headD_front {rx : Bytes} {len : Nat} (hlen : completePacketLen rx = .ok (some len)) : (rx.take len).headD 0 = rx.headD 0 := by
  have hne := (packetLen_stable _ _ (packetLen_eq_some.mpr hlen)).2.ne_nil
  cases rx with
  | nil =>
    rw [List.take_nil] at hne
    exact absurd rfl hne
  | cons b rx =>
    cases len with
    | zero => exact absurd rfl hne
    | succ len => rfl

/-- A PUBLISH at the front is read as it was decoded. -/
theorem asPublish_front {len : Nat} {p : Publish} (hlen : completePacketLen s.client.rx = .ok (some len))
    (hheader : s.client.rx.headD 0 / 16 = 3) (hdecode : Publish.decode (s.client.rx.take len) = .ok p) :
    asPublish (s.client.rx.take len) = some p := by
  unfold asPublish
  rw [headD_front hlen, if_pos hheader, hdecode]
  rfl

/-- Any other packet at the front is no PUBLISH. -/
theorem asPublish_other {len : Nat} (hlen : completePacketLen s.client.rx = .ok (some len)) (hheader : s.client.rx.headD 0 / 16 ≠ 3) :
    asPublish (s.client.rx.take len) = none := by
  unfold asPublish
  rw [headD_front hlen, if_neg hheader]

/-- The answer that accepts a connection is no PUBLISH. -/
theorem connAck_not_publish {bytes : Bytes} (h : answer bytes = .accepted) : asPublish bytes = none := by
  refine if_neg fun hpublish => ?_
  have hnat : (bytes.headD 0).toNat / 16 = 3 := congrArg UInt8.toNat hpublish
  exact absurd ((header_of_accepted h).symm.trans hnat) (by decide)

/-- On a connection, what was received is known. -/
def Known (i : Inbound) : Prop := i.mqtt.place.Online → ∃ taken, Receives i.mqtt i.received i.delivered taken

/-- A connection comes up only where there is none. -/
theorem not_connects {s : Mqtt} (h : s.place ≠ .offline) (e : Mqtt.Event) : ¬s.Connects e := fun hc => h hc.2.1

/-- A poll of the client that pends brings nothing. -/
theorem pends_quiet {s : Mqtt} (h : s.PollPends) :
    s.reads (.step .pending) = [] ∧ s.passes (.step .pending) = [] ∧ s.place.inHand = [] := by
  obtain ⟨hplace, -⟩ | ⟨w, rest, hplace, -⟩ := h <;>
    exact ⟨rfl, passes_of_place (by simp [hplace]) _, by rw [hplace]; rfl⟩

/-- A task on a connection is not offline. -/
theorem online_ne_offline {place : Place} (h : place.Online) : place ≠ .offline := by
  rintro rfl
  exact h

/-- What an observer notes of a step of the task. -/
def Noted (s s' : Mqtt) (io : Io) (received : Bytes) (delivered : List IncomingMessage) : Prop :=
  ∃ taken, Receives s' (if s.Connects (.step io) then [] else received ++ s.reads (.step io))
    (if s.Connects (.step io) then [] else delivered ++ s.passes (.step io)) taken

/-- What a step reads and passes on is noted. -/
theorem noted_some {s' : Mqtt} {io : Io} {bytes : Bytes} {messages : List IncomingMessage} (taken : List Bytes) (hplace : s.place ≠ .offline)
    (hreads : s.reads (.step io) = bytes) (hpasses : s.passes (.step io) = messages)
    (h : Receives s' (received ++ bytes) (delivered ++ messages) taken) : Noted s s' io received delivered := by
  refine ⟨taken, ?_⟩
  rw [if_neg (not_connects hplace _), if_neg (not_connects hplace _), hreads, hpasses]
  exact h

/-- Nothing is noted of most steps. -/
theorem noted_none {s' : Mqtt} {io : Io} (hplace : s.place ≠ .offline) (hreads : s.reads (.step io) = []) (hpasses : s.passes (.step io) = [])
    (h : Receives s' received delivered taken) : Noted s s' io received delivered := by
  refine noted_some taken hplace hreads hpasses ?_
  rw [List.append_nil, List.append_nil]
  exact h

/-- The task neither waits for the broker here nor has a message in hand. -/
def Outside : Place → Prop
  | .offline | .connAck | .polling | .delivering _ => False
  | _ => True

/-- Nothing is noted of a step there. -/
theorem noted_outside {s' : Mqtt} {io : Io} {place : Place} (hplace : s.place = place) (houtside : Outside place)
    (h : Receives s' received delivered taken) : Noted s s' io received delivered := by
  subst hplace
  have hne {place : Place} (hnot : ¬Outside place) : s.place ≠ place := fun heq => hnot (heq ▸ houtside)
  exact noted_none (hne id) (reads_of_place (hne id) (hne id) _) (passes_of_place (fun _ => hne id) _) h

/-- What is known at the place that the task stands at. -/
theorem received_at {place : Place} (h : s.place.Online → ∃ taken, Receives s received delivered taken) (hplace : s.place = place)
    (honline : place.Online) :
    ∃ taken, Receives s received delivered taken ∧ delivered ++ place.inHand = taken.filterMap messageIn := by
  subst hplace
  obtain ⟨taken, hr⟩ := h honline
  exact ⟨taken, hr, hr.messages⟩

/-- A poll of the client pends, and the task goes on to what is to be sent. -/
theorem noted_pends {s' : Mqtt} (hplace : s.PollPends) (h : s.place.Online → ∃ taken, Receives s received delivered taken)
    (hgoes : ∀ taken, Receives s received delivered taken → delivered ++ [] = taken.filterMap messageIn →
      Receives s' received delivered taken) : Noted s s' .pending received delivered := by
  obtain ⟨hreads, hpasses, hhand⟩ := pends_quiet hplace
  obtain ⟨taken, hr⟩ := h hplace.online
  have hmessages := hr.messages
  rw [hhand] at hmessages
  exact noted_none (online_ne_offline hplace.online) hreads hpasses (hgoes taken hr hmessages)

/-- A packet at the front is handed out. -/
theorem noted_found {s' : Mqtt} {io : Io} (hplace : s.place = .connAck ∨ s.place = .polling) {len : Nat}
    (hlen : completePacketLen s.client.rx = .ok (some len)) (h : Receives s' received delivered taken) : Noted s s' io received delivered := by
  refine noted_none ?_ (reads_found hlen _) (passes_of_place ?_ _) h
  · rcases hplace with hplace | hplace <;> simp [hplace]
  · rcases hplace with hplace | hplace <;> simp [hplace]

/-- One more element, filtered. -/
theorem filterMap_concat {α β : Type} (f : α → Option β) (xs : List α) (x : α) :
    (xs ++ [x]).filterMap f = xs.filterMap f ++ (f x).toList := by
  rw [List.filterMap_append]
  cases h : f x <;> simp [h]

/-- A packet that is no PUBLISH brings no message and asks for no acknowledgement. -/
theorem taken_other {front : Bytes} {acked : List Nat} (hnone : asPublish front = none)
    (hmessages : delivered ++ [] = taken.filterMap messageIn) (hacks : acked = taken.filterMap idToAck) :
    delivered ++ [] = (taken ++ [front]).filterMap messageIn ∧ acked = (taken ++ [front]).filterMap idToAck := by
  rw [filterMap_concat, filterMap_concat, messageIn, idToAck, hnone, hmessages, hacks]
  exact ⟨(List.append_nil _).symm, (List.append_nil _).symm⟩

/-- Some data is received. -/
theorem noted_receives {b : UInt8} {bytes : Bytes} (hplace : s.place = .connAck ∨ s.place = .polling)
    (hlen : completePacketLen s.client.rx = .ok none) (hrunning : s.running = true) (hr : Receives s received delivered taken) :
    Noted s { s with client := s.client.receive (b :: bytes) } (.data (b :: bytes)) received delivered := by
  have hread : s.reads (.step (.data (b :: bytes))) = (b :: bytes).take (mqttBufferSize - s.client.rx.length) := by
    simp only [reads, hlen, hrunning, hplace, and_self, if_true]
  have hzero : s.client.rxConsumed = 0 := hr.front hplace
  have hne {place : Place} (hca : place ≠ .connAck) (hpo : place ≠ .polling) : s.place ≠ place := by
    rcases hplace with h | h <;> (rw [h]; exact Ne.symm ‹_›)
  refine noted_some taken (hne nofun nofun) hread (passes_of_place (fun _ => hne nofun nofun) _) ?_
  rw [List.append_nil]
  refine ⟨?_, hr.messages, hr.acks, fun c rest h => absurd h (hne nofun nofun), fun _ => hzero,
    fun p len message rest h => absurd h (hne nofun nofun), fun _ h => Bool.noConfusion (hrunning.symm.trans h)⟩
  have hstream := hr.stream.receive ((b :: bytes).take (mqttBufferSize - s.client.rx.length))
  rw [hzero, List.drop_zero] at hstream
  show Framing.Taken packetLen _ _ ((s.client.rx ++ _).drop s.client.rxConsumed)
  rw [hzero, List.drop_zero]
  exact hstream

/-- A PUBLISH at the front is to be acknowledged, and stays there until it is. -/
theorem noted_acks {len : Nat} {p : Publish} {packetId : Nat} {bytes : Bytes} {io : Io} (hplace : s.place = .polling)
    (hlen : completePacketLen s.client.rx = .ok (some len)) (hpublish : asPublish (s.client.rx.take len) = some p)
    (hid : p.ackId = some packetId) (hr : Receives s received delivered taken)
    (hmessages : delivered ++ [] = taken.filterMap messageIn) :
    Noted s { s with place := .writing (.ack { packetId := packetId } len p.incoming) bytes } io received delivered := by
  refine noted_found (Or.inr hplace) hlen
    ⟨hr.stream, hmessages, hr.acks, by simp, by simp, fun p' len' message' rest' hwriting => ?_, by simp⟩
  cases hwriting
  refine ⟨hr.front (Or.inr hplace), packetLen_eq_some.mpr hlen, ?_, ?_⟩
  · show messageIn (s.client.rx.take len) = _
    rw [messageIn, hpublish]
    rfl
  · show idToAck (s.client.rx.take len) = _
    rw [idToAck, hpublish]
    exact hid

/-- A PUBLISH at the front that asks for no acknowledgement is in hand. -/
theorem noted_delivers {len : Nat} {p : Publish} {io : Io} (hplace : s.place = .polling)
    (hlen : completePacketLen s.client.rx = .ok (some len)) (hpublish : asPublish (s.client.rx.take len) = some p) (hid : p.ackId = none)
    (hr : Receives s received delivered taken) (hmessages : delivered ++ [] = taken.filterMap messageIn) :
    Noted s (s.deliver len p.incoming) io received delivered := by
  have hdelivers : Receives (s.deliver len p.incoming) received delivered (taken ++ [s.client.rx.take len]) := by
    refine receives_plain trivial (hr.takes (Or.inr hplace) hlen) ?_ ?_
    · rw [filterMap_concat, ← hmessages, messageIn, hpublish]
      exact congrArg (· ++ [p.incoming]) (List.append_nil delivered).symm
    · rw [filterMap_concat, idToAck, hpublish, Option.bind_some, hid]
      exact hr.acks.trans (List.append_nil _).symm
  exact noted_found (Or.inr hplace) hlen hdelivers

/-- A packet is out, whichever it was. -/
theorem noted_completes {w : Writing} {rest : Bytes} {io : Io} (hplace : s.place = .writing w rest) (hrunning : s.running = true)
    (hr : Receives s received delivered taken) : Noted s (({ s with stream := s.stream ++ rest } : Mqtt).written w) io received delivered := by
  have hmessages : delivered ++ [] = taken.filterMap messageIn := by
    have hall := hr.messages
    rw [hplace] at hall
    exact hall
  have hacks (p : Packet) (hp : p.acked = none) : (s.sent ++ [p]).filterMap Packet.acked = taken.filterMap idToAck := by
    rw [filterMap_concat, hp, hr.acks]
    exact List.append_nil _
  cases w with
  | connect c =>
    refine noted_outside hplace trivial ⟨?_, hmessages, hacks _ rfl, by simp [written], fun _ => rfl, by simp [written], fun h => ?_⟩
    · -- nothing was received before CONNECT was out
      have hrest := hr.stream.stream
      rw [hr.unread c rest hplace] at hrest
      have hnone := (List.append_eq_nil_iff.mp hrest.symm).2
      have hstream := hr.stream
      rw [hnone] at hstream
      exact hstream
    · cases h
  | resubscribe p others => exact noted_outside hplace trivial (receives_plain trivial hr.stream hmessages (hacks _ rfl))
  | ping =>
    refine noted_outside hplace trivial ⟨hr.stream, hmessages, hacks _ rfl, by simp [written], fun _ => rfl, by simp [written], fun _ h => ?_⟩
    exact Bool.noConfusion (hrunning.symm.trans h)
  | ack p len message =>
    obtain ⟨hzero, hlen, hmessage, hid⟩ := hr.acking p len message rest hplace
    have hstream := hr.stream
    rw [hzero, List.drop_zero] at hstream
    have htaken : Framing.Taken packetLen received (taken ++ [s.client.rx.take len]) (s.client.rx.drop len) :=
      hstream.take packetLen_stable hlen
    refine noted_outside hplace trivial (receives_plain trivial htaken ?_ ?_)
    · rw [filterMap_concat, hmessage, ← hmessages, List.append_nil]
      rfl
    · show (s.sent ++ [Packet.pubAck p]).filterMap Packet.acked = _
      rw [filterMap_concat, filterMap_concat, hid, hr.acks]
      rfl
  | publish p => exact noted_outside hplace trivial (receives_plain trivial hr.stream hmessages (hacks _ rfl))
  | subscribe p => exact noted_outside hplace trivial (receives_plain trivial hr.stream hmessages (hacks _ rfl))

/-- Where the task stands, it goes on to wait: what is known stays. -/
theorem Receives.stays {s' : Mqtt} (hr : Receives s received delivered taken) (hplace : s'.place = s.place) (hclient : s'.client = s.client)
    (hsent : s'.sent = s.sent) (hwaiting : s.place = .polling → s'.running = false → completePacketLen s.client.rx = .ok none) :
    Receives s' received delivered taken := by
  obtain ⟨hstream, hmessages, hacks, hunread, hfront, hacking, -⟩ := hr
  refine ⟨?_, ?_, ?_, ?_, ?_, ?_, ?_⟩ <;> simp only [hplace, hclient, hsent] <;> assumption

/-- What was received and passed on is noted of every step, one case for each kind of step. -/
theorem noted_does {s' : Mqtt} {io : Io} (hdoes : Does s io s') (hrunning : s.running = true)
    (h : s.place.Online → ∃ taken, Receives s received delivered taken) (honline : s'.place.Online) : Noted s s' io received delivered := by
  cases hdoes with
  | ends hplace => exact absurd honline hplace
  | opens hplace hio he =>
    have hconnects : s.Connects (.step io) := ⟨hrunning, hplace, by rw [hio]⟩
    refine ⟨[], ?_⟩
    rw [if_pos hconnects, if_pos hconnects]
    exact ⟨Framing.Taken.nil packetLen, rfl, rfl, fun _ _ _ => rfl, fun _ => rfl, by simp, by simp⟩
  | receives hplace hlen hroom hio =>
    obtain ⟨taken, hr⟩ := h honline
    subst hio
    exact noted_receives hplace hlen hrunning hr
  | @connects len hplace hlen haccepts =>
    obtain ⟨taken, hr, hmessages⟩ := received_at h hplace trivial
    obtain ⟨hmessages', hacks'⟩ := taken_other (connAck_not_publish haccepts) hmessages hr.acks
    exact noted_found (Or.inl hplace) hlen (receives_plain trivial (hr.takes (Or.inl hplace) hlen) hmessages' hacks')
  | resubscribes hplace he =>
    obtain ⟨taken, hr, hmessages⟩ := received_at h hplace trivial
    exact noted_outside hplace trivial (receives_plain trivial hr.stream hmessages hr.acks)
  | signals hplace =>
    obtain ⟨taken, hr, hmessages⟩ := received_at h hplace trivial
    exact noted_outside hplace trivial (receives_plain trivial hr.stream hmessages hr.acks)
  | polls hplace hearly =>
    obtain ⟨taken, hr, hmessages⟩ := received_at h hplace trivial
    exact noted_outside hplace trivial
      ⟨hr.stream, hmessages, hr.acks, by simp, fun _ => rfl, by simp, fun _ h => Bool.noConfusion (hrunning.symm.trans h)⟩
  | pings hplace hdue =>
    obtain ⟨taken, hr, hmessages⟩ := received_at h hplace trivial
    exact noted_outside hplace trivial (receives_plain trivial hr.stream hmessages hr.acks)
  | @skips len hplace hlen hheader =>
    obtain ⟨taken, hr, hmessages⟩ := received_at h hplace trivial
    obtain ⟨hmessages', hacks'⟩ := taken_other (asPublish_other hlen hheader) hmessages hr.acks
    exact noted_found (Or.inr hplace) hlen (receives_plain trivial (hr.takes (Or.inr hplace) hlen) hmessages' hacks')
  | acks hplace hlen hheader hdecode hid he =>
    obtain ⟨taken, hr, hmessages⟩ := received_at h hplace trivial
    exact noted_acks hplace hlen (asPublish_front hlen hheader hdecode) hid hr hmessages
  | delivers hplace hlen hheader hdecode hid =>
    obtain ⟨taken, hr, hmessages⟩ := received_at h hplace trivial
    exact noted_delivers hplace hlen (asPublish_front hlen hheader hdecode) hid hr hmessages
  | publishes hplace hio hout hid he =>
    subst hio
    refine noted_pends hplace h fun taken hr hmessages => receives_plain trivial ?_ hmessages hr.acks
    obtain ⟨-, rfl, -⟩ | ⟨-, rfl, -⟩ := hid <;> exact hr.stream
  | subscribes hplace hio hout hqueue he =>
    subst hio
    exact noted_pends hplace h fun taken hr hmessages => receives_plain trivial hr.stream hmessages hr.acks
  | rings hplace hio hout hqueue hdue =>
    subst hio
    exact noted_pends hplace h fun taken hr hmessages => receives_plain trivial hr.stream hmessages hr.acks
  | waits hplace hio hout hqueue hdue =>
    subst hio
    refine noted_pends hplace h fun taken hr _ => hr.stays rfl rfl rfl fun hpolling _ => ?_
    obtain ⟨-, hlen⟩ | ⟨w, rest, hwriting, -⟩ := hplace
    · exact hlen
    · cases hpolling.symm.trans hwriting
  | suspends hplace hwaits =>
    obtain ⟨taken, hr⟩ := h honline
    have hstays : Receives s.suspend received delivered taken := hr.stays rfl rfl rfl fun hpolling _ => absurd hpolling hplace
    obtain ⟨rfl, hdelivering⟩ | ⟨message, hdelivering, hroom⟩ := hwaits
    · exact noted_none (online_ne_offline honline) rfl (passes_of_place hdelivering _) hstays
    · refine noted_none (online_ne_offline honline) (reads_of_place (by simp [hdelivering]) (by simp [hdelivering]) _) ?_ hstays
      exact if_neg fun hpasses => hroom hpasses.2
  | @accepts w rest n hplace hn hio =>
    obtain ⟨taken, hr, hmessages⟩ := received_at h hplace trivial
    refine noted_outside hplace trivial
      ⟨hr.stream, hmessages, hr.acks, fun c rest' h' => ?_, by simp, fun p len message rest' h' => ?_, by simp⟩
    · cases h'
      exact hr.unread c rest hplace
    · cases h'
      exact hr.acking p len message rest hplace
  | completes hplace =>
    obtain ⟨taken, hr⟩ := h (by rw [hplace]; trivial)
    exact noted_completes hplace hrunning hr
  | @puts message hplace hroom =>
    obtain ⟨taken, hr, hmessages⟩ := received_at h hplace trivial
    have hpass : s.passes (.step io) = [message] := by
      simp only [passes, hrunning, hroom, hplace, and_self, if_true, Place.inHand]
    refine noted_some taken (by simp [hplace]) (reads_of_place (by simp [hplace]) (by simp [hplace]) _) hpass ?_
    rw [List.append_nil]
    exact receives_plain trivial hr.stream ((List.append_nil _).trans hmessages) hr.acks
  | idles hio hplace =>
    obtain ⟨taken, hr⟩ := h honline
    refine noted_none (online_ne_offline honline) ?_ (passes_of_place hplace _) hr
    cases io with
    | data bytes => exact reads_of_place (hio bytes rfl).1 (hio bytes rfl).2 _
    | opened | accept | pending | fail => rfl

/-- Every event keeps what is known of a connection. -/
theorem known_next (i : Inbound) (e : Mqtt.Event) (h : Known i) : Known (i.next e) := by
  intro honline
  rcases next_cases i.mqtt e with ⟨io, rfl, hrunning, hdoes⟩ | ⟨hquiet, hsame⟩
  · exact noted_does hdoes hrunning h honline
  · -- nothing is read or passed on unless the task runs
    have hconnects : ¬i.mqtt.Connects e := fun ⟨hrunning, _, he⟩ => hquiet ⟨_, he, hrunning⟩
    have hreads : i.mqtt.reads e = [] := by
      unfold reads
      split
      · split
        · exact if_neg fun hcond => hquiet ⟨_, rfl, hcond.1⟩
        · rfl
      · rfl
    have hpasses : i.mqtt.passes e = [] := by
      unfold passes
      split
      · exact if_neg fun hcond => hquiet ⟨_, rfl, hcond.1⟩
      · rfl
    have honline' : i.mqtt.place.Online := by
      have hplace : (i.mqtt.next e).place = i.mqtt.place := hsame.place
      rw [← hplace]
      exact honline
    obtain ⟨taken, hr⟩ := h honline'
    refine ⟨taken, ?_⟩
    show Receives (i.mqtt.next e) (if i.mqtt.Connects e then [] else i.received ++ i.mqtt.reads e)
      (if i.mqtt.Connects e then [] else i.delivered ++ i.mqtt.passes e) taken
    rw [if_neg hconnects, if_neg hconnects, hreads, hpasses, List.append_nil, List.append_nil]
    refine hr.stays hsame.place hsame.client hsame.sent fun hpolling hwaits => hr.waiting hpolling ?_
    cases hrunning : i.mqtt.running with
    | false => rfl
    | true => exact Bool.noConfusion ((hsame.running hrunning).symm.trans hwaits)

/-- So it is known in every run. -/
theorem known_after (credentials : Option (String × Bytes)) (events : List Mqtt.Event) : Known (Inbound.after credentials events) :=
  run_always known_next (P := Known) (s := { mqtt := Mqtt.boot credentials, received := [], delivered := [] }) False.elim events

/-- The task waits for more in a poll of the client: everything was taken. -/
theorem Receives.all (hr : Receives s received delivered taken) (hplace : s.place = .polling) (hwaits : s.running = false) :
    packetsIn received = taken := by
  have hstream := hr.stream
  rw [hr.front (Or.inr hplace), List.drop_zero] at hstream
  exact hstream.eq_split (packetLen_of_none (hr.waiting hplace hwaits))

/-- What the observer adds does not change the task. -/
theorem run_mqtt (i : Inbound) (events : List Mqtt.Event) : (run Inbound.next i events).mqtt = run Mqtt.next i.mqtt events := by
  induction events generalizing i with
  | nil => rfl
  | cons e events ih => exact ih (i.next e)

/-- What a packet of the broker brings: the message of an encoded PUBLISH, or nothing. -/
inductive Brings : Bytes → Option IncomingMessage → Prop
  | message {p : Publish} {bytes : Bytes} (hvalid : (Packet.publish p).Valid) (he : p.encode = .ok bytes) : Brings bytes (some p.incoming)
  | other {bytes : Bytes} (hframed : Framed packetLen bytes) (hheader : bytes.headD 0 / 16 ≠ 3) : Brings bytes none

/-- A packet of the broker is one packet on the stream. -/
theorem Brings.framed {bytes : Bytes} {message : Option IncomingMessage} (h : Brings bytes message) : Framed packetLen bytes := by
  cases h with
  | message hvalid he => exact Publish.encode_framed he
  | other hframed => exact hframed

/-- What it brings is what is read from it. -/
theorem Brings.messageIn {bytes : Bytes} {message : Option IncomingMessage} (h : Brings bytes message) :
    GateLink.messageIn bytes = message := by
  cases h with
  | message hvalid he =>
    obtain ⟨hdecode, hheader⟩ := Publish.decode_encode hvalid he
    rw [GateLink.messageIn, asPublish, if_pos hheader, hdecode]
    rfl
  | other hframed hheader =>
    rw [GateLink.messageIn, asPublish, if_neg hheader]
    rfl

/-- The packets of a broker, each with what it brings. -/
theorem filterMap_brings {packets : List (Bytes × Option IncomingMessage)} (h : ∀ x ∈ packets, Brings x.1 x.2) :
    (packets.map Prod.fst).filterMap GateLink.messageIn = packets.filterMap Prod.snd := by
  rw [List.filterMap_map]
  exact List.filterMap_congr fun x hx => (h x hx).messageIn

/-! ## A run -/

/-- A broker resets the wind lock. -/
def reset : Publish where
  topic := buttonCommandTopic
  qos := .atLeastOnce
  retain := false
  payload := utf8 resetWindLockPayload
  packetId := some 1

/-- Its bytes. -/
def resetBytes : Bytes := framed 0x32 (toBeBytes 21 ++ utf8 buttonCommandTopic ++ toBeBytes 1 ++ utf8 resetWindLockPayload)

/-- What the broker sends: it accepts the connection, and sends a message. -/
def packets : List (Bytes × Option IncomingMessage) := [([0x20, 2, 0, 0], none), (resetBytes, some reset.incoming)]

/-- They bring one message. -/
theorem packets_bring : ∀ x ∈ packets, Brings x.1 x.2 := by
  have hconnAck : Framed packetLen [0x20, 2, 0, 0] := framed_framed 0x20 (by decide : ([0, 0] : Bytes).length < 128 ^ 4)
  have hvalid : (Packet.publish reset).Valid := ⟨by decide, by decide⟩
  intro x hx
  simp only [packets, List.mem_cons, List.not_mem_nil, or_false] at hx
  obtain rfl | rfl := hx
  · exact .other hconnAck (by decide)
  · exact .message hvalid (by decide +kernel)

/-- The message comes in two pieces, the first of them with the answer to CONNECT. -/
def inPieces : List Mqtt.Event :=
  [.wake, .step .opened, .step (.accept 512), .step (.data ([0x20, 2, 0, 0] ++ resetBytes.take 3)), .step .pending, .step .pending,
    .step .pending, .step .pending, .wake, .step (.data (resetBytes.drop 3)), .step .pending, .step (.accept 512), .step .pending,
    .step .pending, .step .pending]

/-- Then the task waits for more, with everything received. -/
theorem inPieces_waits :
    (Inbound.after none inPieces).mqtt.place = .polling ∧ (Inbound.after none inPieces).mqtt.running = false ∧
      (Inbound.after none inPieces).received = (packets.map Prod.fst).flatten := by decide +kernel

/-- Then there is a connection. -/
theorem inPieces_online : (Inbound.after none inPieces).mqtt.place.Online := by
  rw [inPieces_waits.1]
  trivial

end InboundAux

open InboundAux Mqtt

/-- Messages are delivered exactly once and in order: in every run, however the bytes of a connection come in and whatever polls of the
client are dropped, the messages passed on to the handler on it, and the one that is to be passed on next, are those of the first packets
of the bytes that were received. When the task waits for more, they are those of all complete packets. -/
theorem delivered_in_order (credentials : Option (String × Bytes)) (events : List Mqtt.Event) :
    let i := Inbound.after credentials events
    i.mqtt.place.Online →
      (∃ n, i.delivered ++ i.mqtt.place.inHand = ((packetsIn i.received).take n).filterMap messageIn) ∧
        (i.mqtt.place = .polling → i.mqtt.running = false → i.delivered = (packetsIn i.received).filterMap messageIn) := by
  intro i honline
  obtain ⟨taken, hr⟩ := known_after credentials events honline
  refine ⟨⟨taken.length, ?_⟩, fun hplace hwaits => ?_⟩
  · rw [hr.messages]
    exact congrArg (List.filterMap messageIn) (List.prefix_iff_eq_take.mp hr.stream.prefix_split)
  · have hmessages := hr.messages
    rw [hplace, ← hr.all hplace hwaits] at hmessages
    exact (List.append_nil _).symm.trans hmessages

/-- The message is delivered, in two pieces. -/
theorem delivered_in_order_pieces :
    (Inbound.after none inPieces).delivered = (packetsIn (Inbound.after none inPieces).received).filterMap messageIn :=
  have hdelivered := delivered_in_order none inPieces inPieces_online
  hdelivered.2 inPieces_waits.1 inPieces_waits.2.1

/-- Acknowledgements keep step with the messages: in every run, the acknowledgements sent on a connection are those that the packets handed
out on it ask for, each once and in their order, whatever polls were dropped in the middle of one. No message that is to be acknowledged is
passed on before that, and when the task waits for more, every packet that was received is acknowledged. -/
theorem acknowledged_in_order (credentials : Option (String × Bytes)) (events : List Mqtt.Event) :
    let i := Inbound.after credentials events
    i.mqtt.place.Online →
      (∃ n, i.mqtt.sent.filterMap Packet.acked = ((packetsIn i.received).take n).filterMap idToAck ∧
        i.delivered ++ i.mqtt.place.inHand = ((packetsIn i.received).take n).filterMap messageIn) ∧
        (i.mqtt.place = .polling → i.mqtt.running = false →
          i.mqtt.sent.filterMap Packet.acked = (packetsIn i.received).filterMap idToAck) := by
  intro i honline
  obtain ⟨taken, hr⟩ := known_after credentials events honline
  have htaken := List.prefix_iff_eq_take.mp hr.stream.prefix_split
  refine ⟨⟨taken.length, ?_, ?_⟩, fun hplace hwaits => ?_⟩
  · exact hr.acks.trans (congrArg (List.filterMap idToAck) htaken)
  · exact hr.messages.trans (congrArg (List.filterMap messageIn) htaken)
  · rw [hr.all hplace hwaits]
    exact hr.acks

/-- The message is acknowledged. -/
theorem acknowledged_in_order_pieces :
    (Inbound.after none inPieces).mqtt.sent.filterMap Packet.acked =
      (packetsIn (Inbound.after none inPieces).received).filterMap idToAck :=
  have hacknowledged := acknowledged_in_order none inPieces inPieces_online
  hacknowledged.2 inPieces_waits.1 inPieces_waits.2.1

/-- From the broker to the handler: if what is received on a connection is what a broker sends, encoded messages and other packets in any
order, the handler gets these messages in this order, as many of them as have come; with everything received and the task waiting for
more, all of them. -/
theorem delivered_from_broker (credentials : Option (String × Bytes)) (events : List Mqtt.Event)
    (packets : List (Bytes × Option IncomingMessage)) (hbrings : ∀ x ∈ packets, Brings x.1 x.2) :
    let i := Inbound.after credentials events
    i.mqtt.place.Online → i.received <+: (packets.map Prod.fst).flatten →
      i.delivered ++ i.mqtt.place.inHand <+: packets.filterMap Prod.snd ∧
        (i.mqtt.place = .polling → i.mqtt.running = false → i.received = (packets.map Prod.fst).flatten →
          i.delivered = packets.filterMap Prod.snd) := by
  intro i honline hreceived
  obtain ⟨taken, hr⟩ := known_after credentials events honline
  have hframed : ∀ p ∈ packets.map Prod.fst, Framed packetLen p := by
    intro p hp
    obtain ⟨x, hx, rfl⟩ := List.mem_map.mp hp
    exact (hbrings x hx).framed
  refine ⟨?_, fun hplace hwaits hall => ?_⟩
  · rw [hr.messages, ← filterMap_brings hbrings]
    exact (hr.stream.prefix_sent hframed hreceived).filterMap _
  · have hpackets : packetsIn i.received = packets.map Prod.fst := by
      rw [hall]
      exact congrArg Prod.fst (split_of_flatten hframed rfl)
    have hmessages := hr.messages
    rw [hplace, ← hr.all hplace hwaits, hpackets, filterMap_brings hbrings] at hmessages
    exact (List.append_nil _).symm.trans hmessages

/-- The handler gets the message of the broker. -/
theorem delivered_from_broker_pieces : (Inbound.after none inPieces).delivered = [reset.incoming] := by
  obtain ⟨hplace, hwaits, hreceived⟩ := inPieces_waits
  have hprefix : (Inbound.after none inPieces).received <+: (packets.map Prod.fst).flatten := by
    rw [hreceived]
  have hdelivered := delivered_from_broker none inPieces packets packets_bring inPieces_online hprefix
  exact hdelivered.2 hplace hwaits hreceived

end GateLink
