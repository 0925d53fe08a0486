import GateLink.Lemmas.Reader
import GateLink.Mqtt.Task
import GateLink.Theorems.Outgoing
import GateLink.Theorems.Stream
import Mathlib.Data.List.Forall2

/-!
# What goes out

What a broker makes of the byte stream of a connection. A packet gets its id from a counter that skips 0, so that an id comes back only after
all others were used (`ids_differ`). Packets are valid, and a broker reads back from the stream exactly the packets that the client sent,
and then a part of the one that it is writing (`broker_reads`), in the runs in which no poll of the client is dropped in the middle of a
packet.
-/

namespace GateLink

open Machine Framing

/-- The packet id that the client has chosen for a packet. -/
def Packet.chosenId : Packet → Option Nat
  | .publish p => p.packetId
  | .subscribe s => some s.packetId
  | .connect _ | .pubAck _ | .pingReq => none

namespace Mqtt

/-- The packets begun on this connection: those sent, and the one being written. -/
def begun (s : Mqtt) : List Packet := s.sent ++ s.place.inFlight

/-- The packet ids chosen on this connection. -/
def chosenIds (s : Mqtt) : List Nat := s.begun.filterMap Packet.chosenId

end Mqtt

/-- The packet id that is chosen after `n` others. -/
def nthId (n : Nat) : Nat := (n + 1) % 65535 + 1

namespace ReadBackAux

open Mqtt

/-! ## Packet ids -/

/-- The counter stands at the id chosen last, and the ids so far are the first ones. -/
structure Counts (counter : Nat) (ids : List Nat) : Prop where
  counter : counter = ids.length % 65535 + 1
  ids : ids = (List.range ids.length).map nthId

/-- A new connection counts from 1. -/
theorem counts_new : Counts 1 [] := ⟨rfl, rfl⟩

/-- The next id is chosen. -/
theorem counts_take {c : Client} {ids : List Nat} (h : Counts c.nextPacketId ids) :
    Counts c.takePacketId.nextPacketId (ids ++ [c.takePacketId.nextPacketId]) := by
  have hnext : c.takePacketId.nextPacketId = nthId ids.length := by
    unfold Client.takePacketId nthId
    simp only [h.counter]
    split <;> omega
  refine ⟨?_, ?_⟩
  · rw [hnext, List.length_append, List.length_singleton]
    rfl
  · rw [hnext, List.length_append, List.length_singleton, List.range_succ, List.map_append, ← h.ids]
    rfl

/-- The counter is an id, and never 0. -/
theorem counts_range {c : Nat} {ids : List Nat} (h : Counts c ids) : 1 ≤ c ∧ c < 65536 := by
  have hcounter := h.counter
  omega

/-- On a connection, the counter and the ids chosen so far agree, and every packet begun is valid. -/
structure Numbered (s : Mqtt) : Prop where
  counts : Counts s.client.nextPacketId s.chosenIds
  valid : ∀ p ∈ s.begun, p.Valid

variable {s s' : Mqtt}

/-- A packet of the client's own poll has no id of the client. -/
theorem chosenId_inPoll {w : Writing} (h : w.inPoll = true) : w.packet.chosenId = none := by
  cases w with
  | ping | ack => rfl
  | connect | resubscribe | publish | subscribe => cases h

/-- With no packet in flight, the ids are those of the packets that were sent. -/
theorem chosenIds_quiet (h : s.place.inFlight = []) : s.chosenIds = s.sent.filterMap Packet.chosenId := by
  rw [chosenIds, begun, h, List.append_nil]

/-- Where a poll of the client pends, all ids that were chosen are those of packets sent. -/
theorem chosenIds_pends (h : s.PollPends) : s.chosenIds = s.sent.filterMap Packet.chosenId := by
  obtain ⟨hplace, -⟩ | ⟨w, rest, hplace, hw⟩ := h
  · exact chosenIds_quiet (by rw [hplace]; rfl)
  · rw [chosenIds, begun, hplace, Place.inFlight, List.filterMap_append, List.filterMap_cons_none (chosenId_inPoll hw)]
    exact List.append_nil _

/-- It depends on the counter and on what was begun. -/
theorem Numbered.congr (h : Numbered s) (hcounter : s'.client.nextPacketId = s.client.nextPacketId) (hbegun : s'.begun = s.begun) :
    Numbered s' := by
  obtain ⟨hcounts, hvalid⟩ := h
  refine ⟨?_, ?_⟩
  · rw [hcounter, chosenIds, hbegun]
    exact hcounts
  · rw [hbegun]
    exact hvalid

/-- No id is chosen. -/
theorem Numbered.keeps (h : Numbered s) (hcounter : s'.client.nextPacketId = s.client.nextPacketId) (hsent : s'.sent = s.sent)
    (hids : s.chosenIds = s.sent.filterMap Packet.chosenId) (hnone : s'.place.inFlight.filterMap Packet.chosenId = [])
    (hvalid : ∀ p ∈ s'.place.inFlight, p.Valid) : Numbered s' := by
  refine ⟨?_, fun p hp => ?_⟩
  · rw [hcounter, chosenIds, begun, List.filterMap_append, hnone, List.append_nil, hsent, ← hids]
    exact h.counts
  · rcases List.mem_append.mp hp with hold | hnew
    · rw [hsent] at hold
      exact h.valid p (List.mem_append_left _ hold)
    · exact hvalid p hnew

/-- An id is chosen for a packet. -/
theorem Numbered.takes (h : Numbered s) (hcounter : s'.client.nextPacketId = s.client.takePacketId.nextPacketId)
    (hids : s.chosenIds = s.sent.filterMap Packet.chosenId) {p : Packet} (hbegun : s'.begun = s.sent ++ [p])
    (hid : p.chosenId = some s'.client.nextPacketId) (hvalid : s'.client.nextPacketId < 65536 → p.Valid) : Numbered s' := by
  have hcounts : Counts s'.client.nextPacketId s'.chosenIds := by
    have htake := counts_take h.counts
    have hchosen : s'.chosenIds = s.chosenIds ++ [s'.client.nextPacketId] := by
      rw [chosenIds, hbegun, List.filterMap_append, hids, List.filterMap_cons_some hid]
      rfl
    rw [hchosen, hcounter]
    exact htake
  refine ⟨hcounts, fun q hq => ?_⟩
  rw [hbegun] at hq
  rcases List.mem_append.mp hq with hsent | hnew
  · exact h.valid q (List.mem_append_left _ hsent)
  · rw [List.mem_singleton.mp hnew]
    exact hvalid (counts_range hcounts).2

/-- A packet id that was read is in the range of one. -/
theorem readPacketId_valid {qos : QoS} {bytes payload : Bytes} {packetId : Option Nat}
    (h : readPacketId qos bytes = .ok (packetId, payload)) : (qos = .atMostOnce ↔ packetId = none) ∧ ∀ id ∈ packetId, id < 65536 := by
  unfold readPacketId at h
  split at h
  · rename_i hqos
    split at h
    · rename_i hi lo rest
      cases h
      refine ⟨iff_of_false hqos nofun, fun id hid => ?_⟩
      cases hid
      have hhi := hi.toNat_lt
      have hlo := lo.toNat_lt
      omega
    · cases h
  · rename_i hqos
    cases h
    exact ⟨iff_of_true (Decidable.not_not.mp hqos) rfl, nofun⟩

/-- A PUBLISH that was decoded is one that can be encoded. -/
theorem decode_valid {bytes : Bytes} {p : Publish} (h : Publish.decode bytes = .ok p) : (Packet.publish p).Valid := by
  unfold Publish.decode at h
  split at h
  · cases h
  · obtain ⟨qos, -, h⟩ := bind_ok h
    split at h
    · simp only at h
      split at h
      · obtain ⟨⟨topic, rest⟩, -, h⟩ := bind_ok h
        obtain ⟨⟨packetId, payload⟩, hid, h⟩ := bind_ok h
        cases h
        exact readPacketId_valid hid
      · cases h
    · cases h

/-- A step of the task numbers what it begins, one case for each kind of step. -/
theorem numbered_does {io : Io} (hdoes : Does s io s') (h : s.place.Online → Numbered s) (honline : s'.place.Online) : Numbered s' := by
  cases hdoes with
  | ends hplace => exact absurd honline hplace
  | opens hplace hio he =>
    refine ⟨counts_new, fun p hp => ?_⟩
    obtain rfl := List.mem_singleton.mp hp
    show keepAlive / fromSecs 1 < 65536
    decide
  | receives => exact (h honline).congr rfl rfl
  | connects hplace hlen haccepts =>
    exact (h (by rw [hplace]; trivial)).keeps rfl rfl (chosenIds_quiet (by rw [hplace]; rfl)) rfl nofun
  | resubscribes hplace he =>
    exact (h (by rw [hplace]; trivial)).takes rfl (chosenIds_quiet (by rw [hplace]; rfl)) rfl rfl id
  | signals hplace => exact (h (by rw [hplace]; trivial)).keeps rfl rfl (chosenIds_quiet (by rw [hplace]; rfl)) rfl nofun
  | polls hplace hearly => exact (h (by rw [hplace]; trivial)).keeps rfl rfl (chosenIds_quiet (by rw [hplace]; rfl)) rfl nofun
  | pings hplace hdue =>
    refine (h (by rw [hplace]; trivial)).keeps rfl rfl (chosenIds_quiet (by rw [hplace]; rfl)) rfl fun p hp => ?_
    obtain rfl := List.mem_singleton.mp hp
    trivial
  | skips hplace hlen hheader => exact (h (by rw [hplace]; trivial)).keeps rfl rfl (chosenIds_quiet (by rw [hplace]; rfl)) rfl nofun
  | @acks len publish packetId bytes hplace hlen hheader hdecode hid he =>
    refine (h (by rw [hplace]; trivial)).keeps rfl rfl (chosenIds_quiet (by rw [hplace]; rfl)) rfl fun p hp => ?_
    obtain rfl := List.mem_singleton.mp hp
    unfold Publish.ackId at hid
    split at hid
    · exact (decode_valid hdecode).2 packetId hid
    · cases hid
  | delivers hplace hlen hheader hdecode hid =>
    exact (h (by rw [hplace]; trivial)).keeps rfl rfl (chosenIds_quiet (by rw [hplace]; rfl)) rfl nofun
  | publishes hplace hio hout hid he =>
    have hn := h hplace.online
    obtain ⟨hqos, rfl, rfl⟩ | ⟨hqos, rfl, rfl⟩ := hid
    · refine hn.keeps rfl rfl (chosenIds_pends hplace) rfl fun p hp => ?_
      obtain rfl := List.mem_singleton.mp hp
      exact ⟨iff_of_true hqos rfl, nofun⟩
    · refine hn.takes rfl (chosenIds_pends hplace) rfl rfl fun hlt => ⟨iff_of_false hqos nofun, fun id hid => ?_⟩
      cases hid
      exact hlt
  | subscribes hplace hio hout hqueue he => exact (h hplace.online).takes rfl (chosenIds_pends hplace) rfl rfl id
  | rings hplace hio hout hqueue hdue => exact (h hplace.online).keeps rfl rfl (chosenIds_pends hplace) rfl nofun
  | waits | suspends | idles => exact (h honline).congr rfl rfl
  | accepts hplace hn hio =>
    refine (h (by rw [hplace]; trivial)).congr rfl ?_
    rw [begun, begun, hplace]
    rfl
  | @completes w rest hplace =>
    refine (h (by rw [hplace]; trivial)).congr (by cases w <;> rfl) ?_
    rw [begun, begun, hplace]
    cases w <;> exact List.append_nil _
  | puts hplace hroom => exact (h (by rw [hplace]; trivial)).keeps rfl rfl (chosenIds_quiet (by rw [hplace]; rfl)) rfl nofun

/-- Along every run, what is begun on a connection is numbered. -/
theorem numbered_after (credentials : Option (String × Bytes)) (events : List Mqtt.Event) :
    (Mqtt.after credentials events).place.Online → Numbered (Mqtt.after credentials events) := by
  refine after_task_rule (P := fun s => s.place.Online → Numbered s) (fun s io s' hdoes h => numbered_does hdoes h) ?_ False.elim events
  intro s s' hsame h honline
  rw [hsame.place] at honline
  refine (h honline).congr (by rw [hsame.client]) ?_
  rw [begun, begun, hsame.sent, hsame.place]

/-! ## The stream -/

/-- The encodings of packets, one behind the other. -/
def Encodes (packets : List Packet) (stream : Bytes) : Prop :=
  ∃ encoded : List Bytes, List.Forall₂ (fun (p : Packet) bytes => p.encode = .ok bytes) packets encoded ∧ stream = encoded.flatten

/-- No packets are encoded in no bytes. -/
theorem encodes_nil : Encodes [] [] := ⟨[], .nil, rfl⟩

/-- One packet more. -/
theorem Encodes.concat {packets : List Packet} {stream bytes : Bytes} {p : Packet} (h : Encodes packets stream) (he : p.encode = .ok bytes) :
    Encodes (packets ++ [p]) (stream ++ bytes) := by
  obtain ⟨encoded, hall, rfl⟩ := h
  exact ⟨encoded ++ [bytes], List.rel_append hall (.cons he .nil), by simp⟩

/-- The stream is the encodings of the packets sent, and of the packet that is being written what is in front of the rest of it. -/
def Carries (place : Place) (sent : List Packet) (stream : Bytes) : Prop :=
  match place with
  | .writing w rest => rest ≠ [] ∧ ∃ whole part, stream = whole ++ part ∧ Encodes sent whole ∧ w.packet.encode = .ok (part ++ rest)
  | _ => Encodes sent stream

/-- A packet that is begun is in the stream, less what is still to be written. -/
theorem carries_begins {w : Writing} {sent : List Packet} {stream bytes : Bytes} (h : Encodes sent stream) (he : w.packet.encode = .ok bytes) :
    Carries (.writing w bytes) sent stream :=
  ⟨(Packet.encode_framed he).ne_nil, stream, [], (List.append_nil _).symm, h, he⟩

/-- Between packets, the stream is that of the packets sent. -/
theorem carries_idle {place : Place} {sent : List Packet} {stream : Bytes} (hplace : place.inFlight = []) :
    Carries place sent stream ↔ Encodes sent stream := by
  cases place with
  | writing w rest => cases hplace
  | offline | connAck | resubscribing | looping | polling | delivering | panicked => exact Iff.rfl

/-- A poll of the client that is dropped, with nothing accepted of what it sends, leaves whole packets. -/
theorem encodes_pends (hplace : s.PollPends) (hunbegun : s.place.Unbegun) (h : Carries s.place s.sent s.stream) :
    Encodes s.sent s.stream := by
  obtain ⟨hpolling, -⟩ | ⟨w, rest, hwriting, hw⟩ := hplace
  · exact (carries_idle (by rw [hpolling]; rfl)).mp h
  · rw [hwriting] at h hunbegun
    obtain ⟨-, whole, part, hstream, hencodes, he⟩ := h
    have hrest : part ++ rest = rest := Except.ok.inj (he.symm.trans (hunbegun hw))
    rw [hstream, List.append_left_eq_self.mp hrest, List.append_nil]
    exact hencodes

/-- A step of the task keeps the stream whole. -/
theorem carries_does {io : Io} (hdoes : Does s io s') (hwhole : io = .pending → s.Ready → s.place.Unbegun)
    (h : s.place.Online → Carries s.place s.sent s.stream) (honline : s'.place.Online) : Carries s'.place s'.sent s'.stream := by
  have idle (hplace : s.place.inFlight = []) (hon : s.place.Online) : Encodes s.sent s.stream := (carries_idle hplace).mp (h hon)
  have pends (hplace : s.PollPends) (hunbegun : s.place.Unbegun) : Encodes s.sent s.stream :=
    encodes_pends hplace hunbegun (h hplace.online)
  cases hdoes with
  | ends hplace => exact absurd honline hplace
  | opens hplace hio he => exact carries_begins encodes_nil he
  | receives => exact h honline
  | connects hplace | signals hplace | polls hplace | skips hplace | delivers hplace | puts hplace =>
    exact idle (by rw [hplace]; rfl) (by rw [hplace]; trivial)
  | resubscribes hplace he => exact carries_begins (idle (by rw [hplace]; rfl) (by rw [hplace]; trivial)) he
  | pings hplace => exact carries_begins (w := .ping) (idle (by rw [hplace]; rfl) (by rw [hplace]; trivial)) rfl
  | acks hplace hlen hheader hdecode hid he => exact carries_begins (idle (by rw [hplace]; rfl) (by rw [hplace]; trivial)) he
  | publishes hplace hio hout hid he =>
    exact carries_begins (pends hplace (hwhole hio (Or.inl (by simp [hout])))) he
  | subscribes hplace hio hout hqueue he =>
    exact carries_begins (pends hplace (hwhole hio (Or.inr (Or.inl (by simp [hqueue]))))) he
  | rings hplace hio hout hqueue hdue => exact pends hplace (hwhole hio (Or.inr (Or.inr hdue)))
  | waits | suspends | idles => exact h honline
  | @accepts w rest n hplace hn hio =>
    have hcarries := h (by rw [hplace]; trivial)
    rw [hplace] at hcarries
    obtain ⟨-, whole, part, hstream, hencodes, he⟩ := hcarries
    refine ⟨hn, whole, part ++ rest.take n, ?_, hencodes, ?_⟩
    · show s.stream ++ rest.take n = _
      rw [hstream, List.append_assoc]
    · rw [List.append_assoc, List.take_append_drop]
      exact he
  | @completes w rest hplace =>
    have hcarries := h (by rw [hplace]; trivial)
    rw [hplace] at hcarries
    obtain ⟨-, whole, part, hstream, hencodes, he⟩ := hcarries
    have hall : Encodes (s.sent ++ [w.packet]) (s.stream ++ rest) := by
      rw [hstream, List.append_assoc]
      exact hencodes.concat he
    cases w <;> exact hall

/-- So does every event that drops no packet in its middle. -/
theorem carries_next (s : Mqtt) (e : Mqtt.Event) (he : s.KeepsWhole e) (h : s.place.Online → Carries s.place s.sent s.stream) :
    (s.next e).place.Online → Carries (s.next e).place (s.next e).sent (s.next e).stream := by
  intro honline
  rcases next_cases s e with ⟨io, rfl, hrunning, hdoes⟩ | ⟨-, hsame⟩
  · refine carries_does hdoes (fun hio hready => ?_) h honline
    subst hio
    exact he hrunning hready
  · rw [hsame.place] at honline
    rw [hsame.place, hsame.sent, hsame.stream]
    exact h honline

/-! ## Reading the stream -/

/-- Packets one after the other are read back, by induction on them, up to a tail that holds no whole packet. -/
theorem readPackets_encoded {packets : List Packet} {encoded : List Bytes}
    (h : List.Forall₂ (fun (p : Packet) bytes => p.encode = .ok bytes) packets encoded) (hvalid : ∀ p ∈ packets, p.Valid) {tail : Bytes}
    {e : DecodeError} (htail : readPacket tail = .error e) {bound : Nat} (hbound : packets.length ≤ bound) :
    readPackets bound (encoded.flatten ++ tail) = (packets, tail) := by
  induction h generalizing bound with
  | nil =>
    rw [List.flatten_nil, List.nil_append]
    cases bound with
    | zero => rfl
    | succ bound => rw [readPackets, htail]
  | @cons p bytes packets encoded he hall ih =>
    obtain ⟨hp, hpackets⟩ := List.forall_mem_cons.mp hvalid
    cases bound with
    | zero => exact absurd hbound (Nat.not_succ_le_zero _)
    | succ bound =>
      rw [List.flatten_cons, List.append_assoc, readPackets, readPacket_encode hp he]
      simp only [ih hpackets (Nat.le_of_succ_le_succ hbound)]

/-- Every packet has at least one byte. -/
theorem length_le_encoded {packets : List Packet} {encoded : List Bytes}
    (h : List.Forall₂ (fun (p : Packet) bytes => p.encode = .ok bytes) packets encoded) : packets.length ≤ encoded.flatten.length := by
  induction h with
  | nil => exact Nat.le_refl 0
  | cons he hall ih =>
    have hpos := List.length_pos_of_ne_nil (Packet.encode_framed he).ne_nil
    rw [List.flatten_cons, List.length_append, List.length_cons]
    omega

/-- A packet that is read is found by its length. -/
theorem packetLen_of_read {bytes : Bytes} {x : Packet × Bytes} (h : readPacket bytes = .ok x) : ∃ n, packetLen bytes = some n := by
  cases bytes with
  | nil => cases h
  | cons header bytes =>
    unfold readPacket at h
    simp only at h
    split at h
    · rename_i remainingLen length hread
      split at h
      · rename_i hle
        refine ⟨1 + length + remainingLen, packetLen_eq_some.mpr ?_⟩
        unfold completePacketLen
        have hlength := (readDigits_take hread).2.1
        have hall : 1 + length + remainingLen ≤ (header :: bytes).length := by
          rw [List.length_drop] at hle
          rw [List.length_cons]
          omega
        simp only [List.drop_succ_cons, List.drop_zero, hread, if_pos hall]
      · cases h
    · cases h

/-- A part of a packet is not read as one. -/
theorem readPacket_part {p : Packet} {part rest : Bytes} (he : p.encode = .ok (part ++ rest)) (hrest : rest ≠ []) :
    ∃ e, readPacket part = .error e := by
  cases hread : readPacket part with
  | error e => exact ⟨e, rfl⟩
  | ok x =>
    obtain ⟨n, hn⟩ := packetLen_of_read hread
    obtain ⟨hle, hfound⟩ := packetLen_stable _ _ hn
    -- the packet would end within the part, but the whole of it is longer
    have hshort : packetLen (part ++ rest) = some n := by
      have hfront := hfound.front (part.drop n ++ rest)
      rw [← List.append_assoc, List.take_append_drop, List.length_take_of_le hle] at hfront
      exact hfront
    have hlong := (Packet.encode_framed he).front []
    rw [List.append_nil, hshort, Option.some.injEq, List.length_append] at hlong
    have hpos := List.length_pos_of_ne_nil hrest
    omega

/-- What was written is read as what was sent. -/
theorem readPackets_carries {place : Place} {sent : List Packet} {stream : Bytes} (hcarries : Carries place sent stream)
    (hvalid : ∀ p ∈ sent, p.Valid) :
    ∃ tail, readPackets stream.length stream = (sent, tail) ∧
      (tail = [] ∨ ∃ w rest, place = .writing w rest ∧ w.packet.encode = .ok (tail ++ rest)) := by
  have reads {whole tail : Bytes} (hstream : stream = whole ++ tail) (hencodes : Encodes sent whole) {e : DecodeError}
      (htail : readPacket tail = .error e) : readPackets stream.length stream = (sent, tail) := by
    obtain ⟨encoded, hall, rfl⟩ := hencodes
    rw [hstream]
    refine readPackets_encoded hall hvalid htail (Nat.le_trans (length_le_encoded hall) ?_)
    rw [List.length_append]
    exact Nat.le_add_right _ _
  by_cases hidle : place.inFlight = []
  · exact ⟨[], reads (List.append_nil _).symm ((carries_idle hidle).mp hcarries) rfl, Or.inl rfl⟩
  · cases place with
    | writing w rest =>
      obtain ⟨hrest, whole, part, hstream, hencodes, he⟩ := hcarries
      obtain ⟨e, hpart⟩ := readPacket_part he hrest
      exact ⟨part, reads hstream hencodes hpart, Or.inr ⟨w, rest, rfl, he⟩⟩
    | offline | connAck | resubscribing | looping | polling | delivering | panicked => exact absurd rfl hidle

/-- In the runs that keep packets whole. -/
theorem carries_after {credentials : Option (String × Bytes)} {events : List Mqtt.Event}
    (hwhole : Allowed Mqtt.next Mqtt.KeepsWhole (Mqtt.boot credentials) events) (honline : (Mqtt.after credentials events).place.Online) :
    Carries (Mqtt.after credentials events).place (Mqtt.after credentials events).sent (Mqtt.after credentials events).stream :=
  run_invariant (P := fun s : Mqtt => s.place.Online → Carries s.place s.sent s.stream) carries_next False.elim hwhole honline

end ReadBackAux

open ReadBackAux Mqtt

/-- Packet ids come back only after all others: in every run, the ids that the client has chosen on a connection are in the range of an id, and
two of them are different unless at least 65535 were chosen from the one to the other. -/
theorem ids_differ (credentials : Option (String × Bytes)) (events : List Mqtt.Event) :
    let s := Mqtt.after credentials events
    s.place.Online →
      (∀ id ∈ s.chosenIds, 1 ≤ id ∧ id ≤ 65535) ∧
        ∀ (i j : Nat) (id : Nat), i < j → s.chosenIds[i]? = some id → s.chosenIds[j]? = some id → i + 65535 ≤ j := by
  intro s honline
  have hids := (numbered_after credentials events honline).counts.ids
  have hnth {i id : Nat} (hi : s.chosenIds[i]? = some id) : id = nthId i := by
    rw [hids, List.getElem?_map] at hi
    obtain ⟨k, hk, rfl⟩ := Option.map_eq_some_iff.mp hi
    obtain ⟨hlt, hrange⟩ := List.getElem?_eq_some_iff.mp hk
    rw [List.getElem_range] at hrange
    rw [hrange]
  refine ⟨fun id hid => ?_, fun i j id hij hi hj => ?_⟩
  · obtain ⟨i, hi⟩ := List.mem_iff_getElem?.mp hid
    rw [hnth hi]
    unfold nthId
    omega
  · have hsame : nthId i = nthId j := (hnth hi).symm.trans (hnth hj)
    unfold nthId at hsame
    omega

/-- After a republish, every message has an id of its own. -/
theorem ids_differ_republished :
    let ids := (Mqtt.after none OutgoingAux.republished).chosenIds
    (∀ id ∈ ids, 1 ≤ id ∧ id ≤ 65535) ∧ ∀ (i j : Nat) (id : Nat), i < j → ids[i]? = some id → ids[j]? ≠ some id := by
  have hplace : (Mqtt.after none OutgoingAux.republished).place = .polling := by decide +kernel
  have hlen : (Mqtt.after none OutgoingAux.republished).chosenIds.length ≤ 65535 := by decide +kernel
  generalize OutgoingAux.republished = events at hplace hlen ⊢
  have honline : (Mqtt.after none events).place.Online := by
    rw [hplace]
    trivial
  obtain ⟨hrange, hdiffer⟩ := ids_differ none events honline
  refine ⟨hrange, fun i j id hij hi hj => ?_⟩
  have hfar : i + 65535 ≤ j := hdiffer i j id hij hi hj
  have hlt : j < (Mqtt.after none events).chosenIds.length := (List.getElem?_eq_some_iff.mp hj).1
  omega

/-- The broker reads what was sent: in every run in which no poll of the client is dropped after the socket has accepted a part of the packet
that it sends, a broker reads from what was written on a connection exactly the packets that the client has sent, with all of their fields
and in their order; what is left is at most a part of the packet that is being written. -/
theorem broker_reads (credentials : Option (String × Bytes)) (events : List Mqtt.Event)
    (hwhole : Allowed Mqtt.next Mqtt.KeepsWhole (Mqtt.boot credentials) events) :
    let s := Mqtt.after credentials events
    s.place.Online →
      ∃ tail, readPackets s.stream.length s.stream = (s.sent, tail) ∧
        (tail = [] ∨ ∃ w rest, s.place = .writing w rest ∧ w.packet.encode = .ok (tail ++ rest)) := by
  intro s honline
  have hcarries : Carries s.place s.sent s.stream := carries_after hwhole honline
  refine readPackets_carries hcarries fun p hp => ?_
  exact (numbered_after credentials events honline).valid p (List.mem_append_left _ hp)

/-- A poll is dropped with nothing of its acknowledgement accepted: the broker reads the acknowledgement behind the message that came in
between. -/
theorem broker_reads_acknowledged :
    let s := Mqtt.after none StreamAux.acknowledgedLater
    ∃ tail, readPackets s.stream.length s.stream = (s.sent, tail) ∧
      (tail = [] ∨ ∃ w rest, s.place = .writing w rest ∧ w.packet.encode = .ok (tail ++ rest)) := by
  have hplace : (Mqtt.after none StreamAux.acknowledgedLater).place = .looping := by decide +kernel
  have honline : (Mqtt.after none StreamAux.acknowledgedLater).place.Online := by
    rw [hplace]
    trivial
  have hreads := broker_reads none StreamAux.acknowledgedLater (by decide +kernel)
  exact hreads honline

end GateLink
