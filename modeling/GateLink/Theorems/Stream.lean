import GateLink.Lemmas.Packet
import GateLink.Mqtt.Steps

/-!
# The byte stream of a connection

What the socket accepts is complete packets, and a part of the packet being written, as long as every packet that was begun is written to
its end or the connection ends with it. All of `run_once` does so, except that the connection loop drops the poll of the client, which writes
PINGREQ and PUBACK: if a part of one was accepted by then, what is written next follows that part (`stream_torn`). The stream is well
formed in the runs in which that does not happen (`stream_whole`).
-/

namespace GateLink

open Machine Framing

/-- Nothing was accepted yet of a packet that a poll of the client sends. -/
def Place.Unbegun : Place → Prop
  | .writing w rest => w.inPoll = true → w.packet.encode = .ok rest
  | _ => True

/-- It is decided at every place. -/
instance : (p : Place) → Decidable p.Unbegun
  | .writing w rest => inferInstanceAs (Decidable (w.inPoll = true → w.packet.encode = .ok rest))
  | .offline | .connAck | .resubscribing _ | .looping | .polling | .delivering _ | .panicked => isTrue trivial

namespace Mqtt

/-- Complete, correctly framed packets. -/
def Packets (bytes : Bytes) : Prop :=
  ∃ packets : List Bytes, bytes = packets.flatten ∧ ∀ p ∈ packets, (∃ packet : Packet, packet.encode = .ok p) ∧ Framed packetLen p

/-- What the socket has accepted on this connection is complete packets, followed at most by a part of the packet that is still being
written, up to what is left of it. -/
def WellFormed (s : Mqtt) : Prop :=
  ∃ packets tail, s.stream = packets ++ tail ∧ Packets packets ∧
    (tail = [] ∨ ∃ w rest, s.place = .writing w rest ∧ w.packet.encode = .ok (tail ++ rest))

/-- An arm of `select3` other than the poll of the client is ready. -/
def Ready (s : Mqtt) : Prop := s.outgoing ≠ [] ∨ s.subQueue ≠ [] ∨ s.timerPolled ∧ s.timer ≤ s.now

/-- It is decided in every state. -/
instance (s : Mqtt) : Decidable s.Ready := inferInstanceAs (Decidable (_ ∨ _ ∨ _))

/-- No poll of the client is dropped after a part of the packet that it sends was accepted. -/
def KeepsWhole (s : Mqtt) : Event → Prop
  | .step .pending => s.running → s.Ready → s.place.Unbegun
  | _ => True

/-- A run decides whether its packets are kept whole. -/
instance (s : Mqtt) : (e : Event) → Decidable (s.KeepsWhole e)
  | .step .pending => inferInstanceAs (Decidable (s.running → s.Ready → s.place.Unbegun))
  | .step .opened | .step (.accept _) | .step (.data _) | .step .fail | .sleep _ | .wake | .publishState _ | .discovery _ | .register _
  | .resume _ | .receive => isTrue trivial

end Mqtt

namespace StreamAux

open Mqtt

/-- Where a task stands, and what was accepted on its connection: complete packets, and what came before the rest of the one being
written. -/
def Aligned (place : Place) (stream : Bytes) : Prop :=
  match place with
  | .offline | .panicked => True
  | .writing w rest => ∃ packets tail, stream = packets ++ tail ∧ Packets packets ∧ w.packet.encode = .ok (tail ++ rest)
  | _ => Packets stream

/-- No bytes are no packets. -/
theorem packets_nil : Packets [] := ⟨[], rfl, nofun⟩

/-- An encoded packet goes on with complete packets. -/
theorem packets_append {bytes encoded : Bytes} {packet : Packet} (h : Packets bytes) (he : packet.encode = .ok encoded) :
    Packets (bytes ++ encoded) := by
  obtain ⟨packets, rfl, hall⟩ := h
  refine ⟨packets ++ [encoded], by simp, fun p hp => ?_⟩
  rcases List.mem_append.mp hp with hold | hnew
  · exact hall p hold
  · obtain rfl := List.mem_singleton.mp hnew
    exact ⟨⟨packet, he⟩, Packet.encode_framed he⟩

/-- A packet begins after complete packets. -/
theorem aligned_begins {w : Writing} {stream bytes : Bytes} (h : Packets stream) (he : w.packet.encode = .ok bytes) :
    Aligned (.writing w bytes) stream := ⟨stream, [], (List.append_nil _).symm, h, he⟩

/-- Between two packets, there are complete packets only. -/
theorem aligned_turning {place : Place} {stream : Bytes} (hplace : place.Turning) : Aligned place stream ↔ Packets stream := by
  obtain rfl | rfl | ⟨message, rfl⟩ := hplace <;> rfl

/-- Where the task can go on to something else, no packet is cut short, if none is by dropping the poll of the client. -/
theorem packets_leaves {place : Place} {stream : Bytes} {io : Io} (hplace : place.Leaves io)
    (hwhole : io = .pending → place.Unbegun) (h : Aligned place stream) : Packets stream := by
  obtain hturning | ⟨hio, w, rest, rfl, hw⟩ := hplace
  · exact (aligned_turning hturning).mp h
  · -- the poll is dropped: what is left to write is the whole packet, so no part of it was accepted
    obtain ⟨packets, tail, rfl, hpackets, he⟩ := h
    have hsame : tail ++ rest = rest := Except.ok.inj (he.symm.trans (hwhole hio hw))
    have htail : tail = [] := List.append_left_eq_self.mp hsame
    rw [htail, List.append_nil]
    exact hpackets

/-- Every event of the connection keeps the stream aligned, unless it drops a poll in the middle of a packet. -/
theorem aligned_moves {v v' : View} {e : Mqtt.Event} (hmove : Moves v e v') (hwhole : e = .step .pending → v.place.Unbegun)
    (h : Aligned v.place v.stream) : Aligned v'.place v'.stream := by
  cases hmove with
  | @ends io place sent stream subQueue outgoing hplace hout =>
    cases place with
    | offline | panicked => trivial
    | writing | connAck | resubscribing | looping | polling | delivering => exact absurd trivial hplace
  | opens he => exact aligned_begins packets_nil he
  | connects hplace | signals hplace =>
    rw [hplace] at h
    exact h
  | resubscribes hplace hp he =>
    rw [hplace] at h
    exact aligned_begins h he
  | turns hplace hnext => exact (aligned_turning hnext).mpr (packets_leaves hplace (fun hio => hwhole (by rw [hio])) h)
  | polls hplace hw he => exact aligned_begins ((aligned_turning hplace).mp h) he
  | publishes hplace hout hp he => exact aligned_begins (packets_leaves hplace (fun hio => hwhole (by rw [hio])) h) he
  | subscribes hplace hqueue hp he => exact aligned_begins (packets_leaves hplace (fun hio => hwhole (by rw [hio])) h) he
  | @accepts io w rest n hplace hn =>
    rw [hplace] at h
    obtain ⟨packets, tail, hstream, hpackets, he⟩ := h
    refine ⟨packets, tail ++ rest.take n, ?_, hpackets, ?_⟩
    · rw [hstream, List.append_assoc]
    · rw [List.append_assoc, List.take_append_drop]
      exact he
  | @completes io w rest hplace =>
    rw [hplace] at h
    obtain ⟨packets, tail, hstream, hpackets, he⟩ := h
    have hall : Packets (v.stream ++ rest) := by
      rw [hstream, List.append_assoc]
      exact packets_append hpackets he
    cases w <;> exact hall
  | publishState | discovery | register | registerWaits | resume => exact h

/-- With no other arm ready, a pending poll of the client goes on. -/
theorem otherArms_waits {s : Mqtt} (h : ¬s.Ready) : s.otherArms.view = s.view := by
  unfold otherArms
  split
  · rename_i hout
    exact absurd (Or.inl (by simp [hout])) h
  · rename_i hqueue
    exact absurd (Or.inr (Or.inl (by simp [hqueue]))) h
  · split
    · rename_i hdue
      exact absurd (Or.inr (Or.inr hdue)) h
    · rfl

/-- A poll that is pending in the middle of a packet is not dropped, if the run keeps packets whole. -/
theorem pending_waits {s : Mqtt} (hwhole : s.KeepsWhole (.step .pending)) (hbegun : ¬s.place.Unbegun) :
    (s.next (.step .pending)).view = s.view := by
  show (if s.running then s.step .pending else s).view = _
  split
  · rename_i hrunning
    have hwaits : ¬s.Ready := fun hready => hbegun (hwhole hrunning hready)
    cases hplace : s.place with
    | writing w rest =>
      rw [hplace] at hbegun
      have hw : w.inPoll = true := (Classical.not_imp.mp hbegun).1
      have hstep : s.step .pending = s.otherArms := by
        unfold step
        rw [hplace]
        exact if_pos hw
      rw [hstep]
      exact otherArms_waits hwaits
    | offline | connAck | resubscribing | looping | polling | delivering | panicked =>
      rw [hplace] at hbegun
      exact absurd trivial hbegun
  · rfl

/-- An event that keeps packets whole keeps the stream aligned. -/
theorem aligned_event (s : Mqtt) (e : Mqtt.Event) (he : s.KeepsWhole e) (h : Aligned s.place s.stream) :
    Aligned (s.next e).place (s.next e).stream := by
  have hnothing (hsame : (s.next e).view = s.view) : Aligned (s.next e).place (s.next e).stream := by
    have hplace : (s.next e).place = s.place := congrArg View.place hsame
    have hstream : (s.next e).stream = s.stream := congrArg View.stream hsame
    rw [hplace, hstream]
    exact h
  by_cases hunbegun : e = .step .pending → s.place.Unbegun
  · rcases next_moves s e with hsame | hmove
    · exact hnothing hsame
    · exact aligned_moves hmove hunbegun h
  · obtain ⟨rfl, hbegun⟩ := Classical.not_imp.mp hunbegun
    exact hnothing (pending_waits he hbegun)

/-- A stream that is aligned is well formed. -/
theorem wellFormed_aligned {s : Mqtt} (h : Aligned s.place s.stream) (honline : s.place.Online) : s.WellFormed := by
  have hwhole (hpackets : Packets s.stream) : s.WellFormed := ⟨s.stream, [], (List.append_nil _).symm, hpackets, Or.inl rfl⟩
  cases hplace : s.place with
  | writing w rest =>
    rw [hplace] at h
    obtain ⟨packets, tail, hstream, hpackets, he⟩ := h
    exact ⟨packets, tail, hstream, hpackets, Or.inr ⟨w, rest, hplace, he⟩⟩
  | connAck | resubscribing | looping | polling | delivering =>
    rw [hplace] at h
    exact hwhole h
  | offline | panicked =>
    rw [hplace] at honline
    exact honline.elim

/-! ## Runs -/

/-- A command for the gate, delivered at least once. -/
def command : Bytes := framed 0x32 (toBeBytes 21 ++ utf8 buttonCommandTopic ++ toBeBytes 1 ++ utf8 "PRESS")

/-- The socket accepts one byte of the acknowledgement of a command when the gate publishes its state. -/
def halfAcknowledged : List Mqtt.Event :=
  comesUp ++ [.wake, .step (.data command), .step .pending, .step (.accept 1), .step .pending, .publishState Controls.new, .wake, .step .pending,
    .step (.accept 512)]

/-- The gate publishes its state before any of the acknowledgement is accepted: it is dropped, and sent after that. -/
def acknowledgedLater : List Mqtt.Event :=
  comesUp ++ [.wake, .step (.data command), .step .pending, .step .pending, .publishState Controls.new, .wake, .step .pending,
    .step (.accept 512), .step .pending, .step .pending, .step (.accept 512), .step .pending]

end StreamAux

open StreamAux Mqtt

/-- The byte stream is well formed, in every run in which no poll of the client is dropped after the socket has accepted a part of the packet
that it sends: at every moment of every connection, what was written on it is complete, correctly framed packets, and at most a part of
one that is still being written. -/
theorem stream_whole (credentials : Option (String × Bytes)) (events : List Mqtt.Event)
    (hwhole : Allowed Mqtt.next Mqtt.KeepsWhole (Mqtt.boot credentials) events) :
    let s := Mqtt.after credentials events
    s.place.Online → s.WellFormed := by
  intro s honline
  have hboot : Aligned (Mqtt.boot credentials).place (Mqtt.boot credentials).stream := trivial
  have haligned : Aligned s.place s.stream := run_invariant (P := fun s : Mqtt => Aligned s.place s.stream) aligned_event hboot hwhole
  exact wellFormed_aligned haligned honline

/-- A poll is dropped with nothing of its acknowledgement accepted. -/
theorem stream_whole_acknowledged : (Mqtt.after none acknowledgedLater).WellFormed := by
  have hplace : (Mqtt.after none acknowledgedLater).place = .looping := by decide +kernel
  refine stream_whole none acknowledgedLater (by decide +kernel) ?_
  show (Mqtt.after none acknowledgedLater).place.Online
  rw [hplace]
  trivial

/-- After one byte of an acknowledgement comes the message for which its poll was dropped. -/
theorem stream_torn :
    let s := Mqtt.after none halfAcknowledged
    s.place.Online ∧ ¬s.WellFormed := by
  intro s
  have hplace : s.place = .looping := by decide +kernel
  refine ⟨by rw [hplace]; trivial, ?_⟩
  rintro ⟨packets, tail, hstream, ⟨found, rfl, hfound⟩, htail⟩
  have hempty : tail = [] := by
    refine htail.resolve_right ?_
    rintro ⟨w, rest, hwriting, -⟩
    cases hplace.symm.trans hwriting
  rw [hempty, List.append_nil] at hstream
  have hsplit := split_of_flatten (fun p hp => (hfound p hp).2) rfl
  rw [← hstream] at hsplit
  have hrest : (split packetLen s.stream.length s.stream).2 ≠ [] := by decide +kernel
  exact hrest (congrArg Prod.snd hsplit)

end GateLink
