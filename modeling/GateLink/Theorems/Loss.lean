import GateLink.Lemmas.Device
import GateLink.Theorems.Inbound
import GateLink.Theorems.Provisioning
import GateLink.Theorems.Subscriptions

/-!
# What ends a connection, and what reboots the device

The client ends a connection with any error, its own ones included: a packet that does not fit its buffer, or a call in the wrong state. The
device gives it no cause. With a configuration that was accepted, every packet that it begins to send can be encoded, and a connection is
lost only to the network or to what the broker sends (`connection_ends_iff`).

A panic reboots the device. There is one that can be reached, and it is the broker's: an answer to CONNECT that says that it is a CONNECT
itself, and is too short for one (`panics_iff`).
-/

namespace GateLink

open Machine

/-- The message fits the buffer that it is encoded in: with the header and four bytes for the length, the length of its topic and a packet id. -/
def OutgoingMessage.Fits (m : OutgoingMessage) : Prop := contentStart + (2 + byteLen m.topic) + 2 + m.payload.length ≤ mqttBufferSize

/-- Whether a message fits is decided by its length. -/
instance (m : OutgoingMessage) : Decidable m.Fits := inferInstanceAs (Decidable (_ ≤ _))

/-- The subscription fits the buffer that it is encoded in. -/
def Subscription.Fits (sub : Subscription) : Prop := contentStart + 2 + (2 + byteLen sub.topic) + 1 ≤ mqttBufferSize

/-- Whether a subscription fits is decided by its length. -/
instance (sub : Subscription) : Decidable sub.Fits := inferInstanceAs (Decidable (_ ≤ _))

namespace Mqtt

/-- `next_packet` fails: what was received begins with no packet, or there is no complete one, and the buffer is full, the broker has closed
the connection or the network fails. -/
def ReadFails (s : Mqtt) (io : Io) : Prop :=
  match completePacketLen s.client.rx with
  | .error _ => True
  | .ok none => s.client.rx.length = mqttBufferSize ∨ io = .data [] ∨ io = .fail
  | .ok (some _) => False

/-- The broker does not accept the connection. -/
def Refused (s : Mqtt) : Prop := ∃ len, completePacketLen s.client.rx = .ok (some len) ∧ answer (s.client.rx.take len) ≠ .accepted

/-- The broker sends a PUBLISH that cannot be decoded. -/
def Undecodable (s : Mqtt) : Prop :=
  ∃ len e, completePacketLen s.client.rx = .ok (some len) ∧ s.client.rx.headD 0 / 16 = 3 ∧ Publish.decode (s.client.rx.take len) = .error e

/-- What the network does, or the broker has sent, ends the connection. -/
def Breaks (s : Mqtt) (io : Io) : Prop :=
  match s.place with
  | .writing _ _ => io = .fail
  | .connAck => s.ReadFails io ∨ s.Refused
  | .polling => s.ReadFails io ∨ s.Undecodable
  | .offline | .resubscribing _ | .looping | .delivering _ | .panicked => False

/-- A complete answer to CONNECT is there, and its decoder panics. -/
def Overruns (s : Mqtt) : Prop :=
  s.place = .connAck ∧ ∃ len, completePacketLen s.client.rx = .ok (some len) ∧ answer (s.client.rx.take len) = .panics

end Mqtt

/-- The device has panicked: the counter of a debouncer has overflowed, a packet was encoded past the end of its buffer, or an answer was
decoded past its end. -/
def Device.Panicked (d : Device) : Prop := d.panicked = true ∨ d.mqtt.place = .panicked

/-- The event panics. -/
def Device.Panics (d : Device) (e : Device.Event) : Prop := ¬d.Panicked ∧ (d.next e).Panicked

namespace LossAux

open Mqtt ProvisioningAux

/-! ## Packets that can be encoded -/

/-- A message that fits can be encoded, with an id if its QoS asks for one. -/
theorem encode_publish {m : OutgoingMessage} (h : m.Fits) {packetId : Option Nat} (hid : m.qos ≠ .atMostOnce → packetId ≠ none) :
    ∃ bytes, (Packet.publish (publishPacket m packetId)).encode = .ok bytes := by
  unfold OutgoingMessage.Fits contentStart mqttBufferSize at h
  obtain ⟨c1, h1, l1⟩ := writeBinaryData_ok (utf8 m.topic) [] (by
    show 5 + 0 + (2 + byteLen m.topic) ≤ 512
    omega)
  have l1' : c1.length = 2 + byteLen m.topic := by rw [l1, List.length_nil, Nat.zero_add, byteLen]
  obtain ⟨c2, h2, l2⟩ : ∃ c2, (publishPacket m packetId).writePacketId c1 = .ok c2 ∧ c2.length ≤ c1.length + 2 := by
    unfold Publish.writePacketId
    split
    · rename_i hqos
      cases hp : packetId with
      | none => exact absurd hp (hid hqos)
      | some id =>
        obtain ⟨c2, h2, l2⟩ := put_ok .bufferTooSmall (toBeBytes id) c1 (by
          show 5 + c1.length + 2 ≤ 512
          omega)
        exact ⟨c2, h2, Nat.le_of_eq l2⟩
    · exact ⟨c1, rfl, Nat.le_add_right _ _⟩
  obtain ⟨c3, h3, -⟩ := put_ok .bufferTooSmall m.payload c2 (by
    show 5 + c2.length + m.payload.length ≤ 512
    omega)
  refine ⟨framed (UInt8.ofNat (0x30 + 2 * m.qos.toNat + m.retain.toNat)) c3, ?_⟩
  show (publishPacket m packetId).encode = _
  unfold Publish.encode
  have htopic : writeUtf8String (publishPacket m packetId).topic [] = .ok c1 := h1
  have hpayload : put .bufferTooSmall (publishPacket m packetId).payload c2 = .ok c3 := h3
  simp only [htopic, h2, hpayload, bind, Except.bind]
  rfl

/-- A subscription that fits can be encoded. -/
theorem encode_subscribe {sub : Subscription} (h : sub.Fits) (packetId : Nat) :
    ∃ bytes, (Packet.subscribe { packetId := packetId, topics := [(sub.topic, sub.qos)] }).encode = .ok bytes := by
  unfold Subscription.Fits contentStart mqttBufferSize at h
  obtain ⟨c1, h1, l1⟩ := put_ok .outOfBounds (toBeBytes packetId) [] (by
    show 5 + 0 + 2 ≤ 512
    omega)
  have l1' : c1.length = 2 := l1
  obtain ⟨c2, h2, l2⟩ := writeBinaryData_ok (utf8 sub.topic) c1 (by
    show 5 + c1.length + (2 + byteLen sub.topic) ≤ 512
    omega)
  have l2' : c2.length = c1.length + (2 + byteLen sub.topic) := l2
  obtain ⟨c3, h3, -⟩ := put_ok .outOfBounds [UInt8.ofNat sub.qos.toNat] c2 (by
    show 5 + c2.length + 1 ≤ 512
    omega)
  refine ⟨framed 0x82 c3, ?_⟩
  show Subscribe.encode _ = _
  unfold Subscribe.encode
  simp only [h1, List.foldlM, writeTopic, writeUtf8String, h2, h3, bind, Except.bind]
  rfl

/-! ## What the device sends -/

/-- The messages of the gate fit: those for its state, the discovery configs and the subscriptions. -/
theorem stateUpdate_fit (c : Controls) : ∀ m ∈ stateUpdate c, m.Fits := by
  have hall : ∀ cover : CoverState, ∀ locked bypass : Bool, ∀ m ∈ (messagesOf cover locked bypass).map retained, m.Fits := by
    intro cover locked bypass
    cases cover <;> cases locked <;> cases bypass <;> decide +kernel
  exact hall c.coverState c.windLocked c.barrierBypass

/-- All discovery configs fit. -/
theorem discoveryConfigs_fit : ∀ m ∈ discoveryConfigs, m.Fits := by decide +kernel

/-- The subscriptions to all command topics fit. -/
theorem commandTopics_fit : ∀ topic ∈ commandTopics, (Handler.subscription topic).Fits := by decide +kernel

/-! ## The task -/

/-- Whatever the task is to send can be encoded, and the client knows that it is connected. -/
structure Sound (s : Mqtt) : Prop where
  state : s.place.Copied → s.client.state = .connected
  outgoing : ∀ m ∈ s.outgoing, m.Fits
  subscriptions : ∀ sub ∈ s.subscriptions, sub.Fits
  subQueue : ∀ sub ∈ s.subQueue, sub.Fits
  callers : ∀ sub ∈ s.callers, sub.Fits
  remaining : ∀ sub ∈ s.place.remaining, sub.Fits
  connect : ∃ bytes, (Packet.connect (connectPacket s.credentials)).encode = .ok bytes

variable {s : Mqtt} {io : Io}

/-- A packet that can be encoded is written, and the connection goes on. -/
theorem write_online {w : Writing} (h : ∃ bytes, w.packet.encode = .ok bytes) : (s.write w).place.Online := by
  obtain ⟨bytes, he⟩ := h
  unfold write
  rw [he]
  trivial

theorem sendPacket_online {w : Writing} (hstate : s.client.state = .connected) (h : ∃ bytes, w.packet.encode = .ok bytes) :
    (s.sendPacket w).place.Online := by
  unfold sendPacket
  rw [if_pos hstate]
  exact write_online h

/-- A message that fits is sent on a connection. -/
theorem publish_online {m : OutgoingMessage} (hstate : s.client.state = .connected) (h : m.Fits) : (s.publish m).place.Online := by
  unfold publish
  split
  · rename_i hqos
    exact sendPacket_online hstate (encode_publish h fun hne => absurd hqos hne)
  · exact sendPacket_online hstate (encode_publish h nofun)

/-- What the task does while it waits for the broker loses no connection. -/
theorem otherArms_online (h : Sound s) (hstate : s.client.state = .connected) (honline : s.place.Online) : s.otherArms.place.Online := by
  unfold otherArms
  split
  · rename_i m rest hout
    exact publish_online hstate (h.outgoing m (by simp [hout]))
  · rename_i sub rest _ hqueue
    exact sendPacket_online hstate (encode_subscribe (h.subQueue sub (by simp [hqueue])) _)
  · split
    · trivial
    · exact honline

/-- A step loses the connection if something breaks it, and only then, unless it panics. -/
def Decides (s : Mqtt) (breaks : Prop) (s' : Mqtt) : Prop :=
  breaks ∧ (s' = s.lose ∨ s.Overruns ∧ s' = s.crash) ∨ ¬breaks ∧ s'.place.Online

/-- The socket accepts some bytes of the packet. -/
theorem accept_online (w : Writing) (rest : Bytes) (n : Nat) : (s.accept w rest n).place.Online := by
  unfold accept
  simp only
  split
  · cases w <;> trivial
  · trivial

/-- The front packet decides: if it is complete, what is done with it, and otherwise the task waits. -/
theorem nextPacket_decides {found : Mqtt → Nat → Mqtt} {waits : Mqtt → Mqtt} {breaks : Prop}
    (hbreaks : breaks → ∃ len, completePacketLen s.client.rx = .ok (some len))
    (hfound : ∀ len, completePacketLen s.client.rx = .ok (some len) → Decides s breaks (found s len)) (hwaits : (waits s).place.Online)
    (honline : s.place.Online) : Decides s (s.ReadFails io ∨ breaks) (s.nextPacket io found waits) := by
  unfold nextPacket ReadFails
  cases hlen : completePacketLen s.client.rx with
  | error e => exact Or.inl ⟨Or.inl trivial, Or.inl rfl⟩
  | ok len =>
    cases len with
    | some len =>
      rcases hfound len hlen with ⟨hb, hlost⟩ | ⟨hb, hon⟩
      · exact Or.inl ⟨Or.inr hb, hlost⟩
      · exact Or.inr ⟨fun h => h.elim id hb, hon⟩
    | none =>
      have hnone : ¬breaks := by
        intro hb
        obtain ⟨len, hsome⟩ := hbreaks hb
        cases hlen.symm.trans hsome
      simp only
      split
      · rename_i hfull
        exact Or.inl ⟨Or.inl (Or.inl hfull), Or.inl rfl⟩
      · rename_i hroom
        unfold Mqtt.read
        cases io with
        | data bytes =>
          cases bytes with
          | nil => exact Or.inl ⟨Or.inl (Or.inr (Or.inl rfl)), Or.inl rfl⟩
          | cons b bytes => exact Or.inr ⟨by simp [hroom, hnone], honline⟩
        | fail => exact Or.inl ⟨Or.inl (Or.inr (Or.inr rfl)), Or.inl rfl⟩
        | pending => exact Or.inr ⟨by simp [hroom, hnone], hwaits⟩
        | opened | accept => exact Or.inr ⟨by simp [hroom, hnone], honline⟩

/-- An answer to CONNECT is accepted, or the connection ends with it. -/
theorem connectAnswered_decides (hplace : s.place = .connAck) {len : Nat} (hlen : completePacketLen s.client.rx = .ok (some len)) :
    Decides s s.Refused (s.connectAnswered len) := by
  unfold connectAnswered
  split
  · rename_i haccepts
    refine Or.inr ⟨?_, trivial⟩
    rintro ⟨len', hlen', hrefused⟩
    cases hlen.symm.trans hlen'
    exact hrefused haccepts
  · rename_i hrefused
    exact Or.inl ⟨⟨len, hlen, by rw [hrefused]; nofun⟩, Or.inl rfl⟩
  · rename_i hpanics
    exact Or.inl ⟨⟨len, hlen, by rw [hpanics]; nofun⟩, Or.inr ⟨⟨hplace, len, hlen, hpanics⟩, rfl⟩⟩

/-- A packet of a connection that is up. -/
theorem pollPacket_decides (hstate : s.client.state = .connected) {len : Nat} (hlen : completePacketLen s.client.rx = .ok (some len)) :
    Decides s s.Undecodable (s.pollPacket len) := by
  unfold pollPacket
  split
  · rename_i hheader
    refine Or.inr ⟨?_, trivial⟩
    rintro ⟨-, -, -, hpublish, -⟩
    exact hheader hpublish
  · rename_i hheader
    split
    · rename_i e hdecode
      exact Or.inl ⟨⟨len, e, hlen, Decidable.not_not.mp hheader, hdecode⟩, Or.inl rfl⟩
    · rename_i p hdecode
      refine Or.inr ⟨?_, ?_⟩
      · rintro ⟨len', e, hlen', -, herror⟩
        cases hlen.symm.trans hlen'
        cases hdecode.symm.trans herror
      · simp only
        split
        · exact sendPacket_online hstate ⟨_, rfl⟩
        · trivial

/-- A step of the task, one case for each place it can be in. -/
theorem step_decides (io : Io) (h : Sound s) (honline : s.place.Online) : Decides s (s.Breaks io) (s.step io) := by
  have hstate := h.state
  unfold step Breaks
  cases hplace : s.place with
  | writing w rest =>
    rw [hplace] at hstate honline
    cases io with
    | accept n => exact Or.inr ⟨nofun, accept_online w rest n⟩
    | fail => exact Or.inl ⟨rfl, Or.inl rfl⟩
    | pending =>
      refine Or.inr ⟨nofun, ?_⟩
      simp only
      split
      · rename_i hw
        have hcopied : (Place.writing w rest).Copied := SubscriptionsAux.inLoop_copied (Place.Polls.inLoop (p := .writing w rest) hw)
        exact otherArms_online h (hstate hcopied) (by rw [hplace]; trivial)
      · show s.place.Online
        rw [hplace]
        trivial
    | opened | data =>
      refine Or.inr ⟨nofun, ?_⟩
      rw [hplace]
      trivial
  | connAck =>
    have hon : s.place.Online := by rw [hplace]; trivial
    refine nextPacket_decides ?_ (fun len hlen => connectAnswered_decides hplace hlen) hon hon
    rintro ⟨len, hlen, -⟩
    exact ⟨len, hlen⟩
  | resubscribing rest =>
    rw [hplace] at hstate
    refine Or.inr ⟨id, ?_⟩
    cases rest with
    | nil => trivial
    | cons sub rest =>
      exact sendPacket_online (s := s.takePacketId) (hstate trivial) (encode_subscribe (h.remaining sub (by simp [hplace, Place.remaining])) _)
  | looping =>
    rw [hplace] at hstate
    refine Or.inr ⟨id, ?_⟩
    have hconnected : s.client.state = .connected := hstate trivial
    show s.loop.place.Online
    unfold Mqtt.loop
    simp only [hconnected, ne_eq, not_true_eq_false, if_false]
    split
    · exact sendPacket_online (s := { s with timer := s.now + keepAliveCheck, timerPolled := false }) hconnected ⟨_, rfl⟩
    · trivial
  | polling =>
    have hon : s.place.Online := by rw [hplace]; trivial
    rw [hplace] at hstate
    refine nextPacket_decides ?_ (fun len hlen => pollPacket_decides (hstate trivial) hlen) (otherArms_online h (hstate trivial) hon) hon
    rintro ⟨len, -, hlen, -⟩
    exact ⟨len, hlen⟩
  | delivering message =>
    refine Or.inr ⟨id, ?_⟩
    simp only
    split
    · trivial
    · show s.place.Online
      rw [hplace]
      trivial
  | offline | panicked =>
    rw [hplace] at honline
    exact honline.elim

/-! ## Runs -/

/-- What is to be sent only gets less, or more of what can be encoded. -/
theorem Sound.keeps {s' : Mqtt} (h : Sound s) (hstate : s'.place.Copied → s'.client.state = .connected)
    (houtgoing : s'.outgoing ⊆ s.outgoing) (hsubscriptions : s'.subscriptions = s.subscriptions) (hqueue : s'.subQueue ⊆ s.subQueue)
    (hcallers : s'.callers = s.callers) (hremaining : ∀ sub ∈ s'.place.remaining, sub.Fits) (hcredentials : s'.credentials = s.credentials) :
    Sound s' := by
  refine ⟨hstate, fun m hm => h.outgoing m (houtgoing hm), ?_, fun sub hsub => h.subQueue sub (hqueue hsub), ?_, hremaining, ?_⟩
  · rw [hsubscriptions]
    exact h.subscriptions
  · rw [hcallers]
    exact h.callers
  · rw [hcredentials]
    exact h.connect

/-- What a step does keeps the connection sound, one case for each kind of step. -/
theorem sound_does {s' : Mqtt} (hdoes : Does s io s') (honline : s'.place.Online) (h : Sound s) : Sound s' := by
  have state {p : Place} (hplace : s.place = p) (hcopied : p.Copied) : s.client.state = .connected := h.state (hplace ▸ hcopied)
  have pends (hplace : s.PollPends) : s.client.state = .connected := by
    obtain ⟨hpolling, -⟩ | ⟨w, rest, hwriting, hw⟩ := hplace
    · exact state hpolling trivial
    · exact state hwriting (SubscriptionsAux.inLoop_copied (Place.Polls.inLoop (p := .writing w rest) hw))
  have same : s.outgoing ⊆ s.outgoing := List.Subset.refl _
  have sameQueue : s.subQueue ⊆ s.subQueue := List.Subset.refl _
  cases hdoes with
  | ends hplace => exact absurd honline hplace
  | opens => exact h.keeps False.elim same rfl sameQueue rfl nofun rfl
  | receives => exact h.keeps h.state same rfl sameQueue rfl h.remaining rfl
  | connects => exact h.keeps (fun _ => rfl) same rfl (List.nil_subset _) rfl h.subscriptions rfl
  | @resubscribes sub rest bytes hplace =>
    refine h.keeps (fun _ => state hplace trivial) same rfl sameQueue rfl (fun sub' hsub => ?_) rfl
    exact h.remaining sub' (by rw [hplace]; exact List.mem_cons_of_mem _ hsub)
  | signals hplace => exact h.keeps (fun _ => state hplace trivial) (List.nil_subset _) rfl sameQueue rfl nofun rfl
  | polls hplace | pings hplace | skips hplace | acks hplace | delivers hplace | puts hplace =>
    exact h.keeps (fun _ => state hplace trivial) same rfl sameQueue rfl nofun rfl
  | publishes hplace hio hout hid =>
    refine h.keeps (fun _ => ?_) (by rw [hout]; exact List.subset_cons_self _ _) rfl sameQueue rfl nofun rfl
    obtain ⟨-, rfl, -⟩ | ⟨-, rfl, -⟩ := hid <;> exact pends hplace
  | subscribes hplace hio hout hqueue =>
    exact h.keeps (fun _ => pends hplace) same rfl (by rw [hqueue]; exact List.subset_cons_self _ _) rfl nofun rfl
  | rings hplace => exact h.keeps (fun _ => pends hplace) same rfl sameQueue rfl nofun rfl
  | waits | suspends | idles => exact h.keeps h.state same rfl sameQueue rfl h.remaining rfl
  | @accepts w rest n hplace =>
    refine h.keeps (fun hcopied => state hplace ?_) same rfl sameQueue rfl (fun sub hsub => h.remaining sub ?_) rfl
    · cases w <;> exact hcopied
    · rw [hplace]
      cases w <;> exact hsub
  | @completes w rest hplace =>
    have hwriting : (w.next.Copied → s.client.state = .connected) := fun hcopied =>
      state hplace (SubscriptionsAux.copied_of_next rest hcopied)
    have hremaining : ∀ sub ∈ w.next.remaining, sub.Fits := by
      rw [SubscriptionsAux.remaining_next w rest, ← hplace]
      exact h.remaining
    cases w with
    | connect => exact h.keeps False.elim same rfl sameQueue rfl nofun rfl
    | resubscribe | ping | ack | publish | subscribe => exact h.keeps hwriting same rfl sameQueue rfl hremaining rfl

/-- A subscription that is registered can be encoded. -/
def Admits : Mqtt.Event → Prop
  | .register sub => sub.Fits
  | _ => True

/-- A connection that is lost leaves nothing to encode; so does a panic. -/
theorem sound_lose (h : Sound s) : Sound s.lose :=
  h.keeps False.elim (List.Subset.refl _) rfl (List.Subset.refl _) rfl nofun rfl

/-- Nor does a panic leave anything to encode. -/
theorem sound_crash (h : Sound s) : Sound s.crash :=
  h.keeps False.elim (List.Subset.refl _) rfl (List.Subset.refl _) rfl nofun rfl

/-- A step of the task keeps the connection sound, whether it goes on or not. -/
theorem sound_step (io : Io) (h : Sound s) : Sound (s.step io) := by
  by_cases honline : s.place.Online
  · rcases step_decides io h honline with ⟨-, hlost | ⟨-, hcrashed⟩⟩ | ⟨-, hon⟩
    · rw [hlost]
      exact sound_lose h
    · rw [hcrashed]
      exact sound_crash h
    · exact sound_does (step_does s io) hon h
  · cases hplace : s.place with
    | offline =>
      unfold step
      rw [hplace]
      cases io with
      | opened =>
        obtain ⟨bytes, he⟩ := h.connect
        have hopen : (s.openConnection).place.Online := by
          rw [openConnection_eq]
          exact write_online ⟨bytes, he⟩
        have hdoes := step_does s .opened
        unfold step at hdoes
        rw [hplace] at hdoes
        exact sound_does hdoes hopen h
      | pending => exact h.keeps h.state (List.Subset.refl _) rfl (List.Subset.refl _) rfl h.remaining rfl
      | accept | data | fail => exact h
    | panicked =>
      unfold step
      rw [hplace]
      exact h
    | writing | connAck | resubscribing | looping | polling | delivering =>
      rw [hplace] at honline
      exact absurd trivial honline

/-! ## Panics -/

/-- What the decoder runs past the end of, in the bytes received. -/
theorem overruns_iff : s.Overruns ↔ s.place = .connAck ∧
    ∃ len, completePacketLen s.client.rx = .ok (some len) ∧ (s.client.rx.headD 0).toNat / 16 = 1 ∧ len < 11 := by
  refine and_congr_right fun _ => exists_congr fun len => and_congr_right fun hlen => ?_
  have hall : len ≤ s.client.rx.length := (packetLen_stable _ _ (packetLen_eq_some.mpr hlen)).1
  rw [answer_panics_iff, InboundAux.headD_front hlen, List.length_take_of_le hall]

/-- The decoder runs past the end of the answer. -/
theorem step_of_overruns (h : s.Overruns) : s.step io = s.crash := by
  obtain ⟨hplace, len, hlen, hpanics⟩ := h
  unfold step
  simp only [hplace, nextPacket, hlen, connectAnswered, hpanics]

/-- A step that panics does so for the answer: whatever the task sends can be encoded. -/
theorem overruns_of_step (h : Sound s) (hbefore : s.place ≠ .panicked) (hafter : (s.step io).place = .panicked) : s.Overruns := by
  by_cases honline : s.place.Online
  · rcases step_decides io h honline with ⟨-, hlost | ⟨hoverruns, -⟩⟩ | ⟨-, hon⟩
    · rw [hlost] at hafter
      cases hafter
    · exact hoverruns
    · rw [hafter] at hon
      exact hon.elim
  · have hplace : s.place = .offline := by
      cases hplace : s.place with
      | offline => rfl
      | panicked => exact absurd hplace hbefore
      | writing | connAck | resubscribing | looping | polling | delivering =>
        rw [hplace] at honline
        exact absurd trivial honline
    unfold step at hafter
    rw [hplace] at hafter
    cases io with
    | opened =>
      have hon : s.openConnection.place.Online := by
        rw [openConnection_eq]
        exact write_online h.connect
      have hpanicked : s.openConnection.place = .panicked := hafter
      rw [hpanicked] at hon
      exact hon.elim
    | accept | data | fail | pending => exact absurd hafter hbefore

/-- The task stands where it stood, unless it takes a step. -/
theorem place_next (s : Mqtt) (e : Mqtt.Event) (he : ∀ io, e ≠ .step io) : (s.next e).place = s.place := by
  cases e with
  | step io => exact absurd rfl (he io)
  | sleep d => rfl
  | wake => exact between_rule (P := fun s' : Mqtt => s'.place = s.place) rfl rfl
  | publishState c => exact between_rule (P := fun s' : Mqtt => s'.place = s.place) rfl rfl
  | receive => exact between_rule (P := fun s' : Mqtt => s'.place = s.place) rfl rfl
  | discovery c =>
    refine between_rule (P := fun s' : Mqtt => s'.place = s.place) rfl ?_
    unfold discovery
    split <;> rfl
  | register sub =>
    refine between_rule (P := fun s' : Mqtt => s'.place = s.place) rfl ?_
    unfold register
    simp only
    split <;> rfl
  | resume caller =>
    refine between_rule (P := fun s' : Mqtt => s'.place = s.place) rfl ?_
    unfold resume
    split
    · split <;> rfl
    · rfl

/-- Nothing but a step of the MQTT task can make it panic. -/
theorem step_of_panicked {d : Device} {e : Device.Event} (hbefore : d.mqtt.place ≠ .panicked)
    (hafter : (d.next e).mqtt.place = .panicked) : ∃ io, e = .step io ∧ d.mqtt.running = true := by
  by_cases hstep : ∃ io, e = .step io
  · obtain ⟨io, rfl⟩ := hstep
    refine ⟨io, rfl, ?_⟩
    by_contra hsuspended
    have hsame : (d.next (.step io)).mqtt = d.mqtt := if_neg hsuspended
    rw [hsame] at hafter
    exact hbefore hafter
  · have hother : ∀ e' ∈ d.mqttEvents e, ∀ io, e' ≠ .step io := d.mqttEvents_ne_step fun io he => hstep ⟨io, he⟩
    have hplace : (run Mqtt.next d.mqtt (d.mqttEvents e)).place = d.mqtt.place :=
      run_invariant (P := fun s : Mqtt => s.place = d.mqtt.place) (fun s e he h => (place_next s e he).trans h) rfl
        (allowed_of_forall hother _)
    rw [d.mqtt_next, hplace] at hafter
    exact absurd hafter hbefore

/-! ## The rest of the firmware -/

/-- Messages that can be encoded are queued. -/
theorem sound_enqueue {messages : List OutgoingMessage} (hfit : ∀ m ∈ messages, m.Fits) (h : Sound s) : Sound (s.enqueue messages) := by
  refine ⟨h.state, fun m hm => ?_, h.subscriptions, h.subQueue, h.callers, h.remaining, h.connect⟩
  rcases List.mem_append.mp (Queue.foldl_force_subset (by decide) s.outgoing messages hm) with hold | hnew
  · exact h.outgoing m hold
  · exact hfit m hnew

/-- Publishing the state keeps it sound: its messages fit. -/
theorem sound_publishState (c : Controls) (h : Sound s) : Sound (s.publishState c) := by
  have hqueued := sound_enqueue (stateUpdate_fit c) h
  exact ⟨hqueued.state, hqueued.outgoing, hqueued.subscriptions, hqueued.subQueue, hqueued.callers, hqueued.remaining,
    hqueued.connect⟩

/-- What the other tasks do keeps the connection sound, too, if what they ask for fits. -/
theorem sound_next (s : Mqtt) (e : Mqtt.Event) (he : Admits e) (h : Sound s) : Sound (s.next e) := by
  have hwithout {s' : Mqtt} (hplace : s'.place = s.place) (hclient : s'.client = s.client) (hout : s'.outgoing = s.outgoing)
      (hsubscriptions : s'.subscriptions = s.subscriptions) (hqueue : s'.subQueue = s.subQueue) (hcallers : s'.callers = s.callers)
      (hcredentials : s'.credentials = s.credentials) : Sound s' := by
    refine h.keeps ?_ (by simp [hout]) hsubscriptions (by simp [hqueue]) hcallers ?_ hcredentials
    · rw [hplace, hclient]
      exact h.state
    · rw [hplace]
      exact h.remaining
  cases e with
  | step io =>
    show Sound (if s.running then s.step io else s)
    split
    · exact sound_step io h
    · exact h
  | sleep d => exact hwithout rfl rfl rfl rfl rfl rfl rfl
  | wake => exact between_rule (P := Sound) h (hwithout rfl rfl rfl rfl rfl rfl rfl)
  | receive => exact between_rule (P := Sound) h (hwithout rfl rfl rfl rfl rfl rfl rfl)
  | publishState c => exact between_rule (P := Sound) h (sound_publishState c h)
  | discovery c =>
    refine between_rule (P := Sound) h ?_
    unfold discovery
    split
    · refine sound_publishState c ?_
      have hconsumed : Sound { s with connected := none } := hwithout rfl rfl rfl rfl rfl rfl rfl
      exact sound_enqueue discoveryConfigs_fit hconsumed
    · exact h
  | register sub =>
    refine between_rule (P := Sound) h ?_
    have hfit : sub.Fits := he
    have hmore {subs : List Subscription} (hsubs : ∀ sub' ∈ subs, sub'.Fits) : ∀ sub' ∈ subs ++ [sub], sub'.Fits := by
      intro sub' hsub
      rcases List.mem_append.mp hsub with hold | hnew
      · exact hsubs sub' hold
      · rw [List.mem_singleton.mp hnew]
        exact hfit
    unfold register
    simp only
    split
    · rename_i subQueue hsent
      obtain rfl := trySend_eq hsent
      exact ⟨h.state, h.outgoing, hmore h.subscriptions, hmore h.subQueue, h.callers, h.remaining, h.connect⟩
    · exact ⟨h.state, h.outgoing, hmore h.subscriptions, h.subQueue, hmore h.callers, h.remaining, h.connect⟩
  | resume caller =>
    refine between_rule (P := Sound) h ?_
    unfold resume
    split
    · rename_i sub hcaller
      split
      · rename_i subQueue hsent
        obtain rfl := trySend_eq hsent
        refine ⟨h.state, h.outgoing, h.subscriptions, fun sub' hsub => ?_, fun sub' hsub => ?_, h.remaining, h.connect⟩
        · rcases List.mem_append.mp hsub with hold | hnew
          · exact h.subQueue sub' hold
          · rw [List.mem_singleton.mp hnew]
            exact h.callers sub (List.mem_of_getElem? hcaller)
        · exact h.callers sub' (List.mem_of_mem_eraseIdx hsub)
      · exact h
    · exact h

/-! ## The device -/

/-- Where the handler stands, what it still subscribes to can be encoded. -/
def Listening : Handler → Prop
  | .subscribing rest | .sending rest => ∀ topic ∈ rest, (Handler.subscription topic).Fits
  | .receiving => True

/-- A turn of the handler keeps it so. -/
theorem listening_next {h : Handler} (hl : Listening h) (s : Mqtt) : Listening (h.next s) := by
  cases h with
  | subscribing rest =>
    cases rest with
    | nil => trivial
    | cons topic rest =>
      have hrest : ∀ topic ∈ rest, (Handler.subscription topic).Fits := (List.forall_mem_cons.mp hl).2
      show Listening (if Handler.Sends s then .subscribing rest else .sending rest)
      split
      · exact hrest
      · exact hrest
  | sending rest =>
    show Listening (if Handler.Sends s then .subscribing rest else .sending rest)
    split
    · exact hl
    · exact hl
  | receiving => trivial

/-- What the handler asks the connection for fits. -/
theorem listening_events {h : Handler} (hl : Listening h) : ∀ e ∈ h.events, Admits e := by
  cases h with
  | subscribing rest =>
    cases rest with
    | nil => simp [Handler.events]
    | cons topic rest => simpa [Handler.events, Admits] using (List.forall_mem_cons.mp hl).1
  | sending | receiving => simp [Handler.events, Admits]

/-- A debouncer as the device has them: its counter stays below what it takes for an event. -/
def Counts (d : Debouncer) : Prop := d.stableSamples = edgeStableSamples ∧ d.stable < edgeStableSamples

/-- A debouncer that counts up to its bound never overflows. -/
theorem counts_sample {d : Debouncer} (h : Counts d) (low : Bool) : ∃ pressed d', d.sample low = some (pressed, d') ∧ Counts d' := by
  obtain ⟨hsamples, hstable⟩ := h
  have hzero : (0 : U8) < edgeStableSamples := by decide
  unfold Debouncer.sample
  rw [U8.increment_of_lt hstable (by decide)]
  split
  · exact ⟨_, _, rfl, hsamples, hzero⟩
  · simp only
    split
    · rename_i hbelow
      rw [hsamples] at hbelow
      exact ⟨_, _, rfl, hsamples, hbelow⟩
    · exact ⟨_, _, rfl, hsamples, hzero⟩

/-- Nothing but the connection can go wrong in the device. -/
structure Fit (r : Device.Rest) : Prop where
  panicked : r.panicked = false
  handler : Listening r.handler
  debouncers : ∀ button, Counts (r.debouncers button)

variable {d : Device}

/-- An event keeps the rest of the device fit. -/
theorem fit_next (e : Device.Event) (h : Fit d.rest) : Fit (d.next e).rest := by
  rw [d.rest_next e]
  split
  · cases e with
    | sampleButton button low =>
      obtain ⟨pressed, debouncer, hsample, hcounts⟩ := counts_sample (d := d.debouncers button) (h.debouncers button) low
      have hrest : d.restNext (.sampleButton button low) =
          { d.rest with debouncers := Function.update d.debouncers button debouncer } := by simp [Device.restNext, hsample]
      rw [hrest]
      refine ⟨h.panicked, h.handler, fun other => ?_⟩
      by_cases hother : other = button
      · subst hother
        simpa using hcounts
      · simpa [Device.rest, Function.update_of_ne hother] using h.debouncers other
    | handle => exact ⟨h.panicked, listening_next h.handler d.mqtt, h.debouncers⟩
    | readBarrier => exact ⟨h.panicked, h.handler, h.debouncers⟩
    | pollGate | locked | saveReturns | discover | sleep | wake | step => exact h
  · exact h

/-- What an event of the device is for the connection fits. -/
theorem admits_events (h : Fit d.rest) (e : Device.Event) : ∀ e' ∈ d.mqttEvents e, Admits e' := by
  have hidle : ∀ e' ∈ d.idleEvents e, Admits e' := by
    intro e' he'
    have hpublish {states : List Controls} (hs : e' ∈ states.map .publishState) : Admits e' := by
      obtain ⟨c, -, rfl⟩ := List.mem_map.mp hs
      trivial
    cases e with
    | handle =>
      rcases List.mem_append.mp he' with hhandler | hacts
      · exact listening_events h.handler e' hhandler
      · exact hpublish hacts
    | pollGate | sampleButton | readBarrier => exact hpublish he'
    | discover | wake =>
      rw [List.mem_singleton.mp he']
      trivial
    | locked | saveReturns | sleep | step => exact absurd he' List.not_mem_nil
  cases e with
  | sleep | step => simp [Device.mqttEvents, Admits]
  | pollGate | locked | saveReturns | sampleButton | readBarrier | handle | discover | wake =>
    by_cases hpolled : d.Idle
    · simpa [Device.mqttEvents, hpolled] using hidle
    · simp [Device.mqttEvents, hpolled]

/-- All is well in the device. -/
structure Healthy (d : Device) : Prop where
  mqtt : Sound d.mqtt
  rest : Fit d.rest

/-- An event keeps the device healthy: the connection sound, the rest fit. -/
theorem healthy_next (d : Device) (e : Device.Event) (h : Healthy d) : Healthy (d.next e) := by
  refine ⟨?_, fit_next e h.rest⟩
  rw [d.mqtt_next e]
  exact run_invariant sound_next h.mqtt (allowed_of_forall (admits_events h.rest e) d.mqtt)

/-- A device with an accepted configuration is healthy along every run. -/
theorem healthy_after {f : SubmittedForm} {c : AppConfig} (h : f.intoConfig = .ok c) (a b : MotorSettings) (flash : Option GateState)
    (events : List Device.Event) : Healthy (Device.after c.credentials a b flash events) := by
  obtain ⟨packet, hconnect, -⟩ := (accepted_of_ok h).connected
  have hboot : Sound (Mqtt.boot c.credentials) :=
    ⟨False.elim, nofun, nofun, nofun, nofun, nofun, packet, hconnect⟩
  have hcounts : Counts (.new edgeStableSamples) := ⟨rfl, by decide⟩
  exact run_always healthy_next (s := Device.boot c.credentials a b flash) ⟨hboot, rfl, commandTopics_fit, fun _ => hcounts⟩ events

/-- What the usual form is accepted as. -/
def usualConfig : AppConfig where
  wifiSsid := usualForm.ssid
  wifiPassword := usualForm.wifiPassword
  mqttHost := usualForm.mqttHost
  mqttPort := usualForm.mqttPort
  mqttUsername := nonEmpty usualForm.mqttUsername
  mqttPassword := nonEmpty usualForm.mqttPassword

/-- The CONNECT packet is out. -/
def connecting : List Device.Event := [.wake, .step .opened, .step (.accept 512)]

end LossAux

open LossAux

/-- A connection ends only by what the network does or the broker sends: in every run of a device whose configuration was accepted, a step of
the MQTT task ends the connection exactly if one of these breaks it. The client never ends it with an error of its own. -/
theorem connection_ends_iff {f : SubmittedForm} {c : AppConfig} (h : f.intoConfig = .ok c) (a b : MotorSettings) (flash : Option GateState)
    (events : List Device.Event) :
    let d := Device.after c.credentials a b flash events
    ∀ io, d.mqtt.running = true → d.mqtt.place.Online → (¬(d.next (.step io)).mqtt.place.Online ↔ d.mqtt.Breaks io) := by
  intro d io hrunning honline
  have hsound := (healthy_after h a b flash events).mqtt
  have hstep : (d.next (.step io)).mqtt = d.mqtt.step io := if_pos hrunning
  rw [hstep]
  rcases step_decides io hsound honline with ⟨hbreaks, hlost | ⟨-, hcrashed⟩⟩ | ⟨hbreaks, hon⟩
  · have hoffline : ¬d.mqtt.lose.place.Online := id
    rw [hlost]
    exact ⟨fun _ => hbreaks, fun _ => hoffline⟩
  · have hoffline : ¬d.mqtt.crash.place.Online := id
    rw [hcrashed]
    exact ⟨fun _ => hbreaks, fun _ => hoffline⟩
  · exact ⟨fun hlost => absurd hon hlost, fun hb => absurd hb hbreaks⟩

/-- The broker closes the connection before it has accepted it. -/
theorem connection_ends_iff_closed :
    let d := Device.after usualConfig.credentials (settingsOf leafA 0) (settingsOf leafB 0) none connecting
    d.mqtt.place = .connAck ∧ ¬(d.next (.step (.data []))).mqtt.place.Online := by
  intro d
  have hplace : d.mqtt.place = .connAck := by decide +kernel
  have hrunning : d.mqtt.running = true := by decide +kernel
  have hnothing : d.mqtt.client.rx = [] := by decide +kernel
  have honline : d.mqtt.place.Online := by
    rw [hplace]
    trivial
  have hbreaks : d.mqtt.Breaks (.data []) := by
    unfold Mqtt.Breaks Mqtt.ReadFails
    rw [hplace, hnothing]
    exact Or.inl (Or.inr (Or.inl rfl))
  have hends := connection_ends_iff (f := usualForm) (c := usualConfig) rfl (settingsOf leafA 0) (settingsOf leafB 0) none connecting
  exact ⟨hplace, (hends (.data []) hrunning honline).mpr hbreaks⟩

/-- What panics: in every run of a device whose configuration was accepted, an event panics exactly if it is a step of the MQTT task that
finds, in answer to CONNECT, a complete packet that says that it is a CONNECT and has less than eleven bytes. -/
theorem panics_iff {f : SubmittedForm} {c : AppConfig} (h : f.intoConfig = .ok c) (a b : MotorSettings) (flash : Option GateState)
    (events : List Device.Event) (e : Device.Event) :
    let d := Device.after c.credentials a b flash events
    d.Panics e ↔ (∃ io, e = .step io) ∧ d.mqtt.running = true ∧ d.mqtt.place = .connAck ∧
      ∃ len, completePacketLen d.mqtt.client.rx = .ok (some len) ∧ (d.mqtt.client.rx.headD 0).toNat / 16 = 1 ∧ len < 11 := by
  intro d
  have hhealthy : Healthy d := healthy_after h a b flash events
  have hpanicked : d.panicked = false := hhealthy.rest.panicked
  have hpanicked' : (d.next e).panicked = false := (healthy_next d e hhealthy).rest.panicked
  have hiff : d.Panics e ↔ d.mqtt.place ≠ .panicked ∧ (d.next e).mqtt.place = .panicked := by
    simp [Device.Panics, Device.Panicked, hpanicked, hpanicked']
  rw [hiff, ← overruns_iff]
  constructor
  · rintro ⟨hbefore, hafter⟩
    obtain ⟨io, rfl, hrunning⟩ := step_of_panicked hbefore hafter
    refine ⟨⟨io, rfl⟩, hrunning, ?_⟩
    have hstep : (d.next (.step io)).mqtt = d.mqtt.step io := if_pos hrunning
    rw [hstep] at hafter
    exact overruns_of_step hhealthy.mqtt hbefore hafter
  · rintro ⟨⟨io, rfl⟩, hrunning, hoverruns⟩
    have hstep : (d.next (.step io)).mqtt = d.mqtt.step io := if_pos hrunning
    rw [hstep, step_of_overruns hoverruns]
    exact ⟨by rw [hoverruns.1]; nofun, rfl⟩

/-- Two bytes in answer to CONNECT reboot the device. -/
theorem panics_iff_connect :
    (Device.after usualConfig.credentials (settingsOf leafA 0) (settingsOf leafB 0) none (connecting ++ [.step (.data [0x10, 0])])).Panics
      (.step .pending) :=
  (panics_iff (f := usualForm) (c := usualConfig) rfl (settingsOf leafA 0) (settingsOf leafB 0) none
    (connecting ++ [.step (.data [0x10, 0])]) (.step .pending)).mpr
    ⟨⟨.pending, rfl⟩, by decide +kernel, by decide +kernel, 2, by decide +kernel, by decide +kernel, by decide⟩

end GateLink
