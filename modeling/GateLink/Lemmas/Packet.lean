import GateLink.Mqtt.Packet
import Mathlib.Algebra.Group.Nat.Defs

/-!
# Packets are framed

Every encoded packet is a header, the length of the content as a variable-byte integer, and the content (`encode_shape`), and a packet of
that shape is found by `completePacketLen` at the front of any stream (`framed_framed`).
-/

namespace GateLink

open Framing

/-- The length of the packet at the front of a stream, for the rules of framing. -/
def packetLen (buf : Bytes) : Option Nat :=
  match completePacketLen buf with
  | .ok len => len
  | .error _ => none

/-! ## Variable-byte integers -/

/-- A number below 256 is a byte. -/
theorem toNat_ofNat {n : Nat} (h : n < 256) : (UInt8.ofNat n).toNat = n := by
  rw [UInt8.toNat_ofNat']
  exact Nat.mod_eq_of_lt h

/-- What was written is read, whatever follows. -/
theorem readDigits_writeDigits {turns bound val : Nat} (hturns : val < 128 ^ turns) (hpos : 0 < turns) (hbound : val ≤ bound)
    (length value multiplier : Nat) (rest : Bytes) :
    readDigits turns length value multiplier (writeDigits bound val ++ rest) =
      .complete (value + val * multiplier) (length + (writeDigits bound val).length) := by
  have hlast {turns : Nat} (length value multiplier : Nat) (bound : Nat) (val : Nat) (hval : val < 128)
      (hw : writeDigits bound val = [UInt8.ofNat (val % 128)]) :
      readDigits (turns + 1) length value multiplier (writeDigits bound val ++ rest) =
        .complete (value + val * multiplier) (length + (writeDigits bound val).length) := by
    have hbyte : (UInt8.ofNat val).toNat = val := toNat_ofNat (by omega)
    rw [hw, Nat.mod_eq_of_lt hval, List.singleton_append, readDigits]
    simp only [hbyte, if_pos hval, Nat.mod_eq_of_lt hval, List.length_singleton]
  induction bound generalizing turns val length value multiplier with
  | zero =>
    obtain rfl := Nat.le_zero.mp hbound
    cases turns with
    | zero => exact absurd hpos (Nat.lt_irrefl 0)
    | succ turns => exact hlast length value multiplier 0 0 (by omega) rfl
  | succ bound ih =>
    cases turns with
    | zero => exact absurd hpos (Nat.lt_irrefl 0)
    | succ turns =>
      by_cases hdiv : val / 128 = 0
      · exact hlast length value multiplier (bound + 1) val (by omega) (by rw [writeDigits, if_pos hdiv])
      · have hbyte : (UInt8.ofNat (val % 128 + 128)).toNat = val % 128 + 128 := toNat_ofNat (by omega)
        have hmore : ¬val % 128 + 128 < 128 := by omega
        have hmod : (val % 128 + 128) % 128 = val % 128 := by omega
        have hlt : val / 128 < 128 ^ turns := by
          rw [Nat.pow_succ] at hturns
          exact Nat.div_lt_of_lt_mul (by omega)
        have hturns' : 0 < turns := by
          rcases Nat.eq_zero_or_pos turns with rfl | h
          · omega
          · exact h
        rw [writeDigits, if_neg hdiv, List.cons_append, readDigits]
        simp only [hbyte, if_neg hmore, hmod]
        rw [ih hlt hturns' (by omega)]
        have hsum : value + val % 128 * multiplier + val / 128 * (multiplier * 128) = value + val * multiplier := by
          have hval : val = val % 128 + 128 * (val / 128) := (Nat.mod_add_div val 128).symm
          conv => rhs; rw [hval, Nat.add_mul]
          rw [Nat.add_assoc, Nat.mul_comm multiplier 128, ← Nat.mul_assoc, Nat.mul_comm (val / 128) 128]
        rw [hsum, List.length_cons, Nat.add_assoc, Nat.add_comm 1]

/-- A length that was written is read back, whatever follows it. -/
theorem readVariableByteInteger_write {val : Nat} (h : val < 128 ^ 4) (rest : Bytes) :
    readVariableByteInteger (writeVariableByteInteger val ++ rest) = .complete val (writeVariableByteInteger val).length := by
  unfold readVariableByteInteger writeVariableByteInteger
  rw [readDigits_writeDigits h (by omega) (Nat.le_refl val), Nat.mul_one, Nat.zero_add, Nat.zero_add]

/-! ## Encoded packets -/

/-- A packet is its header, its length and its content. -/
theorem length_framed (header : UInt8) (content : Bytes) :
    (framed header content).length = 1 + (writeVariableByteInteger content.length).length + content.length := by
  rw [framed, List.length_cons, List.length_append]
  omega

/-- A packet with its length before its content is found at the front of every stream. -/
theorem framed_framed (header : UInt8) {content : Bytes} (h : content.length < 128 ^ 4) : Framed packetLen (framed header content) := by
  refine ⟨List.cons_ne_nil _ _, fun rest => ?_⟩
  have hread := readVariableByteInteger_write h (content ++ rest)
  have hdrop : (framed header content ++ rest).drop 1 = writeVariableByteInteger content.length ++ (content ++ rest) := by
    rw [framed, List.cons_append, List.drop_succ_cons, List.drop_zero, List.append_assoc]
  have hall : 1 + (writeVariableByteInteger content.length).length + content.length ≤ (framed header content ++ rest).length := by
    rw [List.length_append, length_framed]
    exact Nat.le_add_right _ _
  unfold packetLen completePacketLen
  rw [hdrop, hread]
  simp only [if_pos hall, length_framed]

/-- What two fallible steps in a row have come to. -/
theorem bind_ok {ε α β : Type} {x : Except ε α} {f : α → Except ε β} {b : β} (h : (x >>= f) = .ok b) :
    ∃ a, x = .ok a ∧ f a = .ok b := by
  cases x with
  | error e => cases h
  | ok a => exact ⟨a, rfl, h⟩

/-- The content so far is within the buffer. -/
def Fits (content : Bytes) : Prop := contentStart + content.length ≤ mqttBufferSize

/-- Content that fits in the buffer is framed in a complete packet. -/
theorem Fits.framed {content : Bytes} (h : Fits content) (header : UInt8) : Framed packetLen (framed header content) := by
  refine framed_framed header ?_
  unfold Fits contentStart mqttBufferSize at h
  omega

/-- What is put into the buffer fits in it; so do the fields, each of which ends with a `put`. -/
theorem put_fits {e : EncodeError} {data content content' : Bytes} (h : put e data content = .ok content') : Fits content' := by
  unfold put at h
  split at h
  · rename_i hle
    cases h
    unfold Fits
    rw [List.length_append]
    omega
  · cases h

/-- Data that is written with its length in front fits the buffer. -/
theorem writeBinaryData_fits {data content content' : Bytes} (h : writeBinaryData data content = .ok content') : Fits content' := by
  unfold writeBinaryData at h
  split at h
  · cases h
  · exact put_fits h

/-- A text that is written fits the buffer. -/
theorem writeUtf8String_fits {s : String} {content content' : Bytes} (h : writeUtf8String s content = .ok content') : Fits content' :=
  writeBinaryData_fits h

/-- A field that may be missing. -/
theorem writeIfSome_fits {α : Type} {write : α → Bytes → Except EncodeError Bytes} {o : Option α} {content content' : Bytes}
    (hwrite : ∀ x, write x content = .ok content' → Fits content') (hc : Fits content) (h : writeIfSome write o content = .ok content') :
    Fits content' := by
  cases o with
  | some x => exact hwrite x h
  | none =>
    cases h
    exact hc

/-- The topics of a SUBSCRIBE, by induction on them: content that fits grows by fields that fit. -/
theorem writeTopics_fits {topics : List (String × QoS)} {content content' : Bytes} (hc : Fits content)
    (h : topics.foldlM writeTopic content = .ok content') : Fits content' := by
  induction topics generalizing content with
  | nil =>
    cases h
    exact hc
  | cons topic topics ih =>
    rw [List.foldlM_cons] at h
    obtain ⟨content'', htopic, hrest⟩ := bind_ok h
    obtain ⟨named, -, hput⟩ := bind_ok htopic
    exact ih (put_fits hput) hrest

/-- Every encoder ends with its content in the buffer, and frames it. -/
theorem Connect.encode_framed {c : Connect} {bytes : Bytes} (h : c.encode = .ok bytes) : Framed packetLen bytes := by
  unfold Connect.encode at h
  obtain ⟨c1, -, h⟩ := bind_ok h
  obtain ⟨c2, -, h⟩ := bind_ok h
  obtain ⟨c3, -, h⟩ := bind_ok h
  obtain ⟨c4, -, h⟩ := bind_ok h
  obtain ⟨c5, h5, h⟩ := bind_ok h
  obtain ⟨c6, h6, h⟩ := bind_ok h
  obtain ⟨c7, h7, h⟩ := bind_ok h
  cases h
  have hfits6 : Fits c6 := writeIfSome_fits (fun _ => writeUtf8String_fits) (writeUtf8String_fits h5) h6
  have hfits7 : Fits c7 := writeIfSome_fits (fun _ => writeBinaryData_fits) hfits6 h7
  exact hfits7.framed _

/-- An encoded PUBLISH is one packet on the stream. -/
theorem Publish.encode_framed {p : Publish} {bytes : Bytes} (h : p.encode = .ok bytes) : Framed packetLen bytes := by
  unfold Publish.encode at h
  obtain ⟨c1, -, h⟩ := bind_ok h
  obtain ⟨c2, -, h⟩ := bind_ok h
  obtain ⟨c3, h3, h⟩ := bind_ok h
  cases h
  exact (put_fits h3).framed _

/-- An encoded SUBSCRIBE is one packet on the stream. -/
theorem Subscribe.encode_framed {s : Subscribe} {bytes : Bytes} (h : s.encode = .ok bytes) : Framed packetLen bytes := by
  unfold Subscribe.encode at h
  obtain ⟨c1, h1, h⟩ := bind_ok h
  obtain ⟨c2, h2, h⟩ := bind_ok h
  cases h
  exact (writeTopics_fits (put_fits h1) h2).framed _

/-- An encoded PUBACK is one packet on the stream. -/
theorem PubAck.encode_framed {p : PubAck} {bytes : Bytes} (h : p.encode = .ok bytes) : Framed packetLen bytes := by
  have hwrite : writeVariableByteInteger 2 = [0x02] := by decide
  have hshape : framed 0x40 (toBeBytes p.packetId) = 0x40 :: 0x02 :: toBeBytes p.packetId := by
    show 0x40 :: (writeVariableByteInteger 2 ++ _) = _
    rw [hwrite]
    rfl
  cases h
  rw [← hshape]
  exact framed_framed 0x40 (Nat.lt_of_le_of_lt (Nat.le_refl 2) (by decide))

/-- A PINGREQ has no content. -/
theorem encodePingReq_framed {bytes : Bytes} (h : encodePingReq = .ok bytes) : Framed packetLen bytes := by
  cases h
  exact framed_framed 0xC0 (by decide : ([] : Bytes).length < 128 ^ 4)

/-- Every encoded packet is framed. -/
theorem Packet.encode_framed {p : Packet} {bytes : Bytes} (h : p.encode = .ok bytes) : Framed packetLen bytes := by
  cases p with
  | connect c => exact Connect.encode_framed h
  | publish p => exact Publish.encode_framed h
  | pubAck p => exact PubAck.encode_framed h
  | subscribe s => exact Subscribe.encode_framed h
  | pingReq => exact encodePingReq_framed h

/-! ## Packets that are found -/

/-- What was read is read again, whatever follows it, as long as all of its bytes are there. -/
theorem readDigits_take {turns length value multiplier : Nat} {bytes : Bytes} {v l : Nat}
    (h : readDigits turns length value multiplier bytes = .complete v l) :
    length < l ∧ l ≤ length + bytes.length ∧
      ∀ n rest, l ≤ length + n → readDigits turns length value multiplier (bytes.take n ++ rest) = .complete v l := by
  induction turns generalizing length value multiplier bytes with
  | zero => cases h
  | succ turns ih =>
    cases bytes with
    | nil => cases h
    | cons byte bytes =>
      have hcons (n : Nat) (rest : Bytes) (hn : 0 < n) : (byte :: bytes).take n ++ rest = byte :: (bytes.take (n - 1) ++ rest) := by
        cases n with
        | zero => exact absurd hn (Nat.lt_irrefl 0)
        | succ n => rfl
      simp only [readDigits] at h
      split at h
      · rename_i hlast
        cases h
        refine ⟨Nat.lt_succ_self _, Nat.add_le_add_left (Nat.le_add_left 1 _) _, fun n rest hn => ?_⟩
        rw [hcons n rest (by omega)]
        simp only [readDigits, if_pos hlast]
      · rename_i hmore
        obtain ⟨hlt, hle, htake⟩ := ih h
        refine ⟨Nat.lt_of_succ_lt hlt, by rw [List.length_cons]; omega, fun n rest hn => ?_⟩
        rw [hcons n rest (by omega)]
        simp only [readDigits, if_neg hmore]
        exact htake _ _ (by omega)

/-- The length of the front packet, as the decoder finds it. -/
theorem packetLen_eq_some {buf : Bytes} {n : Nat} : packetLen buf = some n ↔ completePacketLen buf = .ok (some n) := by
  unfold packetLen
  split
  · rename_i len hlen
    rw [hlen, Except.ok.injEq]
  · rename_i e he
    rw [he]
    exact iff_of_false nofun nofun

/-- An incomplete packet has no length yet. -/
theorem packetLen_of_none {buf : Bytes} (h : completePacketLen buf = .ok none) : packetLen buf = none := by
  unfold packetLen
  rw [h]

/-- Once a packet is found, it is found whatever comes in after it. -/
theorem packetLen_stable : Stable packetLen := by
  intro buf n h
  rw [packetLen_eq_some] at h
  unfold completePacketLen at h
  split at h
  · cases h
  · cases h
  · rename_i remainingLen length hread
    simp only [Except.ok.injEq] at h
    split at h
    · rename_i hall
      cases h
      obtain ⟨hpos, -, htake⟩ := readDigits_take hread
      refine ⟨hall, fun hnil => ?_, fun rest => ?_⟩
      · have hlen := congrArg List.length hnil
        rw [List.length_take, List.length_nil] at hlen
        omega
      · have hdrop : (buf.take (1 + length + remainingLen) ++ rest).drop 1 = (buf.drop 1).take (length + remainingLen) ++ rest := by
          rw [List.drop_append_of_le_length (by rw [List.length_take]; omega), List.drop_take]
          congr 2
          omega
        have hagain : readVariableByteInteger ((buf.drop 1).take (length + remainingLen) ++ rest) = .complete remainingLen length :=
          htake _ _ (by omega)
        have hlength : (buf.take (1 + length + remainingLen)).length = 1 + length + remainingLen := List.length_take_of_le hall
        rw [packetLen_eq_some]
        unfold completePacketLen
        rw [hdrop, hagain]
        simp only [List.length_append, hlength, if_pos (Nat.le_add_right _ _)]
    · cases h

end GateLink
