import GateLink.Lemmas.Packet
import GateLink.Mqtt.Reader

/-!
# Packets are read back

What is written of a packet is read back, field by field (`readUtf8String_append`, ...), and so is the packet, whatever follows it in the
stream (`readPacket_encode`). The client reads a PUBLISH as the broker does (`decode_framed`).
-/

namespace GateLink

/-! ## Strings -/

/-- The bytes of a text are those of that text only, both ways. -/
theorem fromUtf8_utf8 (s : String) : fromUtf8 (utf8 s) = some s := by
  have hbytes : (⟨(utf8 s).toArray⟩ : ByteArray) = s.toUTF8 := rfl
  have hvalid : s.toUTF8.IsValidUTF8 := s.isValidUTF8
  unfold fromUtf8
  rw [hbytes]
  exact dif_pos hvalid

/-- A text that was read has the bytes that it was read from. -/
theorem utf8_of_fromUtf8 {bytes : Bytes} {s : String} (h : fromUtf8 bytes = some s) : utf8 s = bytes := by
  unfold fromUtf8 String.fromUTF8? at h
  split at h
  · cases h
    rfl
  · cases h

/-- Two bytes hold a length below 65536. -/
theorem ofBeBytes_toBeBytes {n : Nat} (h : n < 65536) : ofBeBytes (UInt8.ofNat (n / 256)) (UInt8.ofNat (n % 256)) = n := by
  have hhi : (UInt8.ofNat (n / 256)).toNat = n / 256 := toNat_ofNat (by omega)
  have hlo : (UInt8.ofNat (n % 256)).toNat = n % 256 := toNat_ofNat (by omega)
  unfold ofBeBytes
  rw [hhi, hlo]
  omega

/-- A field that was written is read back, and what follows it is left alone. -/
theorem readBinaryData_append {data : Bytes} (h : data.length ≤ 65535) (rest : Bytes) :
    readBinaryData (toBeBytes data.length ++ data ++ rest) = .ok (data, rest) := by
  have hlen := ofBeBytes_toBeBytes (Nat.lt_succ_of_le h)
  unfold ofBeBytes at hlen
  have hle : data.length ≤ (data ++ rest).length := by
    rw [List.length_append]
    exact Nat.le_add_right _ _
  rw [List.append_assoc]
  simp only [toBeBytes, List.cons_append, List.nil_append, readBinaryData, hlen, if_pos hle, List.take_left, List.drop_left]

/-- A text, the same way. -/
theorem readUtf8String_append {s : String} (h : (utf8 s).length ≤ 65535) (rest : Bytes) :
    readUtf8String (toBeBytes (utf8 s).length ++ utf8 s ++ rest) = .ok (s, rest) := by
  unfold readUtf8String
  rw [readBinaryData_append h]
  simp only [bind, Except.bind, fromUtf8_utf8]

/-! ## What is written -/

/-- What was put is behind what was there. -/
theorem put_eq {e : EncodeError} {data content content' : Bytes} (h : put e data content = .ok content') : content' = content ++ data := by
  unfold put at h
  split at h
  · exact (Except.ok.inj h).symm
  · cases h

/-- A field is its length and its data, and the length fits in two bytes. -/
theorem writeBinaryData_eq {data content content' : Bytes} (h : writeBinaryData data content = .ok content') :
    data.length ≤ 65535 ∧ content' = content ++ (toBeBytes data.length ++ data) := by
  unfold writeBinaryData at h
  split at h
  · cases h
  · rename_i hlen
    exact ⟨Nat.le_of_not_lt hlen, put_eq h⟩

/-- A text is written with its length in front. -/
theorem writeUtf8String_eq {s : String} {content content' : Bytes} (h : writeUtf8String s content = .ok content') :
    (utf8 s).length ≤ 65535 ∧ content' = content ++ (toBeBytes (utf8 s).length ++ utf8 s) := writeBinaryData_eq h

/-- What may be written is read if it is there. -/
theorem readIf_writeIfSome {α : Type} {write : α → Bytes → Except EncodeError Bytes} {read : Bytes → Except DecodeError (α × Bytes)}
    (hread : ∀ x content content', write x content = .ok content' → ∃ written, content' = content ++ written ∧
      ∀ rest, read (written ++ rest) = .ok (x, rest)) {o : Option α} {content content' : Bytes}
    (h : writeIfSome write o content = .ok content') :
    ∃ written, content' = content ++ written ∧ ∀ rest, readIf o.isSome read (written ++ rest) = .ok (o, rest) := by
  cases o with
  | none =>
    cases h
    exact ⟨[], (List.append_nil _).symm, fun _ => rfl⟩
  | some x =>
    obtain ⟨written, hcontent, hback⟩ := hread x content content' h
    refine ⟨written, hcontent, fun rest => ?_⟩
    unfold readIf
    rw [Option.isSome_some, if_pos rfl, hback]
    rfl

/-- A text that was written is read back. -/
theorem utf8String_back (s : String) (content content' : Bytes) (h : writeUtf8String s content = .ok content') :
    ∃ written, content' = content ++ written ∧ ∀ rest, readUtf8String (written ++ rest) = .ok (s, rest) := by
  obtain ⟨hlen, hcontent⟩ := writeUtf8String_eq h
  exact ⟨_, hcontent, readUtf8String_append hlen⟩

/-- Binary data that was written is read back. -/
theorem binaryData_back (data content content' : Bytes) (h : writeBinaryData data content = .ok content') :
    ∃ written, content' = content ++ written ∧ ∀ rest, readBinaryData (written ++ rest) = .ok (data, rest) := by
  obtain ⟨hlen, hcontent⟩ := writeBinaryData_eq h
  exact ⟨_, hcontent, readBinaryData_append hlen⟩

/-! ## The contents -/

/-- What the types of the source say of a packet: its numbers have two bytes, and a PUBLISH has a packet id unless it is delivered at most
once. -/
def Packet.Valid : Packet → Prop
  | .connect c => c.keepAlive < 65536
  | .publish p => (p.qos = .atMostOnce ↔ p.packetId = none) ∧ ∀ packetId ∈ p.packetId, packetId < 65536
  | .pubAck p => p.packetId < 65536
  | .subscribe s => s.packetId < 65536
  | .pingReq => True

/-- Each flag of CONNECT is a bit of its own. -/
theorem Connect.flags_back (c : Connect) :
    decide ((UInt8.ofNat c.flags).toNat / 128 % 2 = 1) = c.username.isSome ∧
      decide ((UInt8.ofNat c.flags).toNat / 64 % 2 = 1) = c.password.isSome ∧
        decide ((UInt8.ofNat c.flags).toNat / 2 % 2 = 1) = c.cleanSession := by
  unfold Connect.flags
  generalize c.username.isSome = username
  generalize c.password.isSome = password
  generalize c.cleanSession = clean
  cases username <;> cases password <;> cases clean <;> decide

/-- A CONNECT is read back, with its will, name and password. -/
theorem Connect.read_encode {c : Connect} (hvalid : c.keepAlive < 65536) {bytes : Bytes} (h : c.encode = .ok bytes) :
    ∃ content, bytes = framed 0x10 content ∧ Fits content ∧ readConnect content = .ok c := by
  unfold Connect.encode at h
  obtain ⟨c1, h1, h⟩ := bind_ok h
  obtain ⟨c2, h2, h⟩ := bind_ok h
  obtain ⟨c3, h3, h⟩ := bind_ok h
  obtain ⟨c4, h4, h⟩ := bind_ok h
  obtain ⟨c5, h5, h⟩ := bind_ok h
  obtain ⟨c6, h6, h⟩ := bind_ok h
  obtain ⟨c7, h7, h⟩ := bind_ok h
  have hfits : Fits c7 :=
    writeIfSome_fits (fun _ => writeBinaryData_fits) (writeIfSome_fits (fun _ => writeUtf8String_fits) (writeUtf8String_fits h5) h6) h7
  obtain ⟨w1, rfl, hback1⟩ := utf8String_back _ _ _ h1
  obtain rfl := put_eq h2
  obtain rfl := put_eq h3
  obtain rfl := put_eq h4
  obtain ⟨w5, rfl, hback5⟩ := utf8String_back _ _ _ h5
  obtain ⟨w6, rfl, hback6⟩ := readIf_writeIfSome utf8String_back h6
  obtain ⟨w7, rfl, hback7⟩ := readIf_writeIfSome binaryData_back h7
  obtain ⟨husername, hpassword, hclean⟩ := c.flags_back
  have hback8 := hback7 []
  rw [List.append_nil] at hback8
  refine ⟨_, (Except.ok.inj h).symm, hfits, ?_⟩
  unfold readConnect
  simp only [List.nil_append, List.append_assoc, hback1, toBeBytes, List.cons_append, bind, Except.bind, and_self, if_true, hback5, husername,
    hpassword, hclean, ofBeBytes_toBeBytes hvalid, hback6, hback8]

/-- The header of a PUBLISH carries its QoS and whether it is retained. -/
theorem QoS.readQoS_header (qos : QoS) (retain : Bool) :
    readQoS (UInt8.ofNat (0x30 + 2 * qos.toNat + retain.toNat)) = .ok qos ∧
      (UInt8.ofNat (0x30 + 2 * qos.toNat + retain.toNat)).toNat / 16 = 3 ∧
        decide ((UInt8.ofNat (0x30 + 2 * qos.toNat + retain.toNat)).toNat % 2 = 1) = retain := by
  cases qos <;> cases retain <;> exact ⟨rfl, rfl, rfl⟩

/-- The packet id is written for those QoS that have one. -/
theorem Publish.packetId_back {p : Publish} (hvalid : (Packet.publish p).Valid) {content content' : Bytes}
    (h : p.writePacketId content = .ok content') :
    ∃ written, content' = content ++ written ∧ ∀ rest, readPacketId p.qos (written ++ rest) = .ok (p.packetId, rest) := by
  obtain ⟨hnone, hlt⟩ := hvalid
  unfold Publish.writePacketId at h
  unfold readPacketId
  split at h
  · rename_i hqos
    simp only [if_pos hqos]
    split at h
    · rename_i packetId hid
      obtain rfl := put_eq h
      refine ⟨_, rfl, fun rest => ?_⟩
      have hback := ofBeBytes_toBeBytes (hlt packetId hid)
      unfold ofBeBytes at hback
      simp only [toBeBytes, List.cons_append, List.nil_append, hback, hid]
    · cases h
  · rename_i hqos
    cases h
    refine ⟨[], (List.append_nil _).symm, fun rest => ?_⟩
    rw [if_neg hqos, hnone.mp (Decidable.not_not.mp hqos)]
    rfl

/-- A PUBLISH is read back with all of its fields. -/
theorem Publish.read_encode {p : Publish} (hvalid : (Packet.publish p).Valid) {bytes : Bytes} (h : p.encode = .ok bytes) :
    ∃ header content, bytes = framed header content ∧ Fits content ∧ header.toNat / 16 = 3 ∧
      readPublish header content = .ok p := by
  unfold Publish.encode at h
  obtain ⟨c1, h1, h⟩ := bind_ok h
  obtain ⟨c2, h2, h⟩ := bind_ok h
  obtain ⟨c3, h3, h⟩ := bind_ok h
  obtain ⟨w1, rfl, hback1⟩ := utf8String_back _ _ _ h1
  obtain ⟨w2, rfl, hback2⟩ := Publish.packetId_back hvalid h2
  have hfits := put_fits h3
  obtain rfl := put_eq h3
  obtain ⟨hqos, htype, hretain⟩ := p.qos.readQoS_header p.retain
  refine ⟨_, _, (Except.ok.inj h).symm, hfits, htype, ?_⟩
  unfold readPublish
  simp only [List.append_assoc, hqos, hback1, hback2, hretain, bind, Except.bind]

/-- An encoded PUBACK is read back. -/
theorem PubAck.read_encode {p : PubAck} (hvalid : p.packetId < 65536) {bytes : Bytes} (h : p.encode = .ok bytes) :
    ∃ content, bytes = framed 0x40 content ∧ Fits content ∧ readPubAck content = .ok p := by
  cases h
  have hwrite : writeVariableByteInteger 2 = [0x02] := by decide
  refine ⟨toBeBytes p.packetId, ?_, Nat.le_of_ble_eq_true rfl, ?_⟩
  · show _ = 0x40 :: (writeVariableByteInteger 2 ++ _)
    rw [hwrite]
    rfl
  · simp only [readPubAck, toBeBytes, ofBeBytes_toBeBytes hvalid]

/-- What a SUBSCRIBE says of one topic. -/
def encodedTopic (topic : String × QoS) : Bytes := toBeBytes (utf8 topic.1).length ++ utf8 topic.1 ++ [UInt8.ofNat topic.2.toNat]

/-- The QoS that a SUBSCRIBE asks for is read back. -/
theorem readRequestedQoS_back (qos : QoS) : readRequestedQoS (UInt8.ofNat qos.toNat) = .ok qos := by
  cases qos <;> rfl

/-- The first topic is read, and then the others. -/
theorem readTopics_cons (topic : String × QoS) (hlen : (utf8 topic.1).length ≤ 65535) {bound : Nat} {rest : Bytes}
    {topics : List (String × QoS)} (hrest : readTopics bound rest = .ok topics) :
    readTopics (bound + 1) (encodedTopic topic ++ rest) = .ok (topic :: topics) := by
  have hread := readUtf8String_append hlen (UInt8.ofNat topic.2.toNat :: rest)
  have hbytes : encodedTopic topic ++ rest =
      toBeBytes (utf8 topic.1).length ++ utf8 topic.1 ++ UInt8.ofNat topic.2.toNat :: rest := by
    rw [encodedTopic, List.append_assoc]
    rfl
  rw [hbytes]
  generalize hb : toBeBytes (utf8 topic.1).length ++ utf8 topic.1 ++ UInt8.ofNat topic.2.toNat :: rest = bytes at hread
  cases bytes with
  | nil => simp at hb
  | cons b bytes => simp only [readTopics, hread, readRequestedQoS_back, hrest, bind, Except.bind]

/-- The topics of a SUBSCRIBE are read back one after the other, by induction on them. -/
theorem writeTopics_back {topics : List (String × QoS)} {content content' : Bytes} (h : topics.foldlM writeTopic content = .ok content') :
    content' = content ++ topics.flatMap encodedTopic ∧
      ∀ bound, topics.length ≤ bound → readTopics bound (topics.flatMap encodedTopic) = .ok topics := by
  induction topics generalizing content with
  | nil =>
    cases h
    refine ⟨(List.append_nil _).symm, fun bound _ => ?_⟩
    cases bound <;> rfl
  | cons topic topics ih =>
    rw [List.foldlM_cons] at h
    obtain ⟨content1, htopic, hrest⟩ := bind_ok h
    obtain ⟨named, hname, hqos⟩ := bind_ok htopic
    obtain ⟨hlen, rfl⟩ := writeUtf8String_eq hname
    obtain rfl := put_eq hqos
    obtain ⟨rfl, hback⟩ := ih hrest
    refine ⟨?_, fun bound hbound => ?_⟩
    · simp only [List.flatMap_cons, encodedTopic, List.append_assoc]
    · cases bound with
      | zero => exact absurd hbound (Nat.not_succ_le_zero _)
      | succ bound =>
        rw [List.flatMap_cons]
        exact readTopics_cons topic hlen (hback bound (Nat.le_of_succ_le_succ hbound))

/-- Every topic takes a byte at least, which bounds how many there are to read. -/
theorem length_le_encodedTopics (topics : List (String × QoS)) : topics.length ≤ (topics.flatMap encodedTopic).length := by
  induction topics with
  | nil => exact Nat.le_refl 0
  | cons topic topics ih =>
    have hpos : 1 ≤ (encodedTopic topic).length := by
      rw [encodedTopic, List.length_append, List.length_singleton]
      exact Nat.le_add_left 1 _
    rw [List.flatMap_cons, List.length_append, List.length_cons]
    omega

/-- A SUBSCRIBE is read back with its topics. -/
theorem Subscribe.read_encode {p : Subscribe} (hvalid : p.packetId < 65536) {bytes : Bytes} (h : p.encode = .ok bytes) :
    ∃ content, bytes = framed 0x82 content ∧ Fits content ∧ readSubscribe content = .ok p := by
  unfold Subscribe.encode at h
  obtain ⟨c1, h1, h⟩ := bind_ok h
  obtain ⟨c2, h2, h⟩ := bind_ok h
  have hfits := writeTopics_fits (put_fits h1) h2
  obtain rfl := put_eq h1
  obtain ⟨rfl, hback⟩ := writeTopics_back h2
  refine ⟨_, (Except.ok.inj h).symm, hfits, ?_⟩
  have htopics := hback _ (length_le_encodedTopics p.topics)
  simp only [List.nil_append, toBeBytes, List.cons_append, readSubscribe, htopics, ofBeBytes_toBeBytes hvalid, bind, Except.bind]

/-! ## The packets -/

/-- Content that fits in the buffer has a length that can be written. -/
theorem Fits.length_lt {content : Bytes} (h : Fits content) : content.length < 128 ^ 4 := by
  unfold Fits contentStart mqttBufferSize at h
  omega

/-- What is encoded has a header and a content that are read as the packet. -/
theorem Packet.readContent_encode {p : Packet} (hvalid : p.Valid) {bytes : Bytes} (h : p.encode = .ok bytes) :
    ∃ header content, bytes = framed header content ∧ Fits content ∧ readContent header content = .ok p := by
  cases p with
  | connect c =>
    obtain ⟨content, hbytes, hfits, hread⟩ := Connect.read_encode hvalid h
    refine ⟨0x10, content, hbytes, hfits, ?_⟩
    rw [readContent, if_pos rfl, hread]
    rfl
  | publish p =>
    obtain ⟨header, content, hbytes, hfits, htype, hread⟩ := Publish.read_encode hvalid h
    have hconnect : header ≠ 0x10 := by
      rintro rfl
      cases htype
    refine ⟨header, content, hbytes, hfits, ?_⟩
    rw [readContent, if_neg hconnect, if_pos htype, hread]
    rfl
  | pubAck p =>
    obtain ⟨content, hbytes, hfits, hread⟩ := PubAck.read_encode hvalid h
    refine ⟨0x40, content, hbytes, hfits, ?_⟩
    rw [readContent, if_neg (by decide), if_neg (by decide), if_pos rfl, hread]
    rfl
  | subscribe s =>
    obtain ⟨content, hbytes, hfits, hread⟩ := Subscribe.read_encode hvalid h
    refine ⟨0x82, content, hbytes, hfits, ?_⟩
    rw [readContent, if_neg (by decide), if_neg (by decide), if_neg (by decide), if_pos rfl, hread]
    rfl
  | pingReq =>
    cases h
    exact ⟨0xC0, [], by decide, Nat.le_of_ble_eq_true rfl, rfl⟩

/-- A packet with its length before its content is taken apart again, whatever follows it. -/
theorem drop_framed (content rest : Bytes) :
    (writeVariableByteInteger content.length ++ content ++ rest).drop (writeVariableByteInteger content.length).length = content ++ rest := by
  rw [List.append_assoc, List.drop_left]

/-- A reader takes one packet off the front and leaves the rest. -/
theorem readPacket_framed {header : UInt8} {content : Bytes} (hlt : content.length < 128 ^ 4) {p : Packet}
    (h : readContent header content = .ok p) (rest : Bytes) : readPacket (framed header content ++ rest) = .ok (p, rest) := by
  have hread := readVariableByteInteger_write hlt (content ++ rest)
  rw [← List.append_assoc] at hread
  have hle : content.length ≤ (content ++ rest).length := by
    rw [List.length_append]
    exact Nat.le_add_right _ _
  simp only [framed, List.cons_append, readPacket, hread, drop_framed, if_pos hle, List.take_left, List.drop_left, h, bind, Except.bind]

/-- Every packet that is encoded is read back, whatever follows it in the stream. -/
theorem readPacket_encode {p : Packet} (hvalid : p.Valid) {bytes : Bytes} (h : p.encode = .ok bytes) (rest : Bytes) :
    readPacket (bytes ++ rest) = .ok (p, rest) := by
  obtain ⟨header, content, rfl, hfits, hread⟩ := Packet.readContent_encode hvalid h
  exact readPacket_framed hfits.length_lt hread rest

/-- The client reads a PUBLISH that is framed as the broker does. -/
theorem decode_framed (header : UInt8) {content : Bytes} (hlt : content.length < 128 ^ 4) :
    Publish.decode (framed header content) = readPublish header content := by
  have hread := readVariableByteInteger_write hlt content
  have hdrop := drop_framed content []
  rw [List.append_nil, List.append_nil] at hdrop
  simp only [framed, Publish.decode, readPublish, hread, hdrop, Nat.le_refl, if_true, List.take_length]

/-- The decoder of the client reads a PUBLISH back. -/
theorem Publish.decode_encode {p : Publish} (hvalid : (Packet.publish p).Valid) {bytes : Bytes} (h : p.encode = .ok bytes) :
    Publish.decode bytes = .ok p ∧ bytes.headD 0 / 16 = 3 := by
  obtain ⟨header, content, rfl, hfits, htype, hread⟩ := Publish.read_encode hvalid h
  exact ⟨(decode_framed header hfits.length_lt).trans hread, UInt8.toNat_inj.mp htype⟩

end GateLink
