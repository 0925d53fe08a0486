import GateLink.Mqtt.Reader

/-!
# The answer to CONNECT

What comes in answer to CONNECT goes through `packet::decode`, which knows the packets of both ends (`packet.rs`). Anything but a CONNACK that
accepts the connection is an error. A CONNECT is one of the packets that a broker never sends; its decoder indexes the buffer, and panics if
the packet ends before the client id (`answer_panics_iff`).
-/

namespace GateLink

/-- Why an answer is not decoded: the errors of the client, and an index out of the buffer, which panics. -/
inductive AnswerError where
  | decode (e : DecodeError)
  | bufferTooSmall
  | invalidPacketType (packetType : Nat)
  | outOfBounds
  deriving DecidableEq, Repr

/-- `ConnAck` -/
structure ConnAck where
  sessionPresent : Bool
  reasonCode : Nat
  deriving DecidableEq, Repr

/-- `SubAck` -/
structure SubAck where
  packetId : Nat
  reasonCodes : Bytes
  deriving DecidableEq, Repr

/-- `MqttPacket` -/
inductive MqttPacket where
  | connect (c : Connect)
  | connAck (c : ConnAck)
  | publish (p : Publish)
  | pubAck (p : PubAck)
  | subscribe (s : Subscribe)
  | subAck (s : SubAck)
  | pingReq
  | pingResp
  | disconnect
  deriving DecidableEq, Repr

/-- A decoder that does not panic. -/
def checked {α : Type} (result : Except DecodeError α) : Except AnswerError α := result.mapError .decode

/-- `buf[i]` -/
def index (buf : Bytes) (i : Nat) : Except AnswerError UInt8 :=
  match buf[i]? with
  | some b => .ok b
  | none => .error .outOfBounds

/-- `Connect::decode`. It takes the byte for the protocol level for the flags, and goes on from there. -/
def Connect.decode (buf : Bytes) : Except AnswerError Connect := do
  let flags ← index buf 8
  let hi ← index buf 9
  let lo ← index buf 10
  let (clientId, rest) ← checked (readUtf8String (buf.drop 11))
  let (username, rest) ← checked (readIf (flags.toNat / 128 % 2 = 1) readUtf8String rest)
  let (password, _) ← checked (readIf (flags.toNat / 64 % 2 = 1) readBinaryData rest)
  .ok { cleanSession := flags.toNat / 2 % 2 = 1, keepAlive := ofBeBytes hi lo, clientId := clientId, username := username,
        password := password }

/-- `ConnAck::decode` -/
def ConnAck.decode : Bytes → Except DecodeError ConnAck
  | _ :: _ :: flags :: reasonCode :: _ => .ok { sessionPresent := flags.toNat % 2 = 1, reasonCode := reasonCode.toNat }
  | _ => .error .malformedPacket

/-- `PubAck::decode` -/
def PubAck.decode : Bytes → Except DecodeError PubAck
  | _ :: _ :: hi :: lo :: _ => .ok { packetId := ofBeBytes hi lo }
  | _ => .error .malformedPacket

/-- `Subscribe::decode` -/
def Subscribe.decode (_buf : Bytes) : Except DecodeError Subscribe := .ok { packetId := 0, topics := [] }

/-- `SubAck::decode`, with at most eight reason codes. -/
def SubAck.decode (buf : Bytes) : Except AnswerError SubAck :=
  match readVariableByteInteger (buf.drop 1) with
  | .complete remainingLen length =>
    let body := buf.drop (1 + length)
    if remainingLen ≤ body.length then
      match body.take remainingLen with
      | hi :: lo :: reasonCodes =>
        if reasonCodes.length ≤ 8 then .ok { packetId := ofBeBytes hi lo, reasonCodes := reasonCodes } else .error .bufferTooSmall
      | _ => .error (.decode .malformedPacket)
    else .error (.decode .malformedPacket)
  | _ => .error (.decode .malformedPacket)

/-- `packet::decode` -/
def decode (buf : Bytes) : Except AnswerError (Option MqttPacket) :=
  match buf with
  | [] => .ok none
  | header :: _ =>
    match header.toNat / 16 with
    | 1 => (Connect.decode buf).map fun c => some (.connect c)
    | 2 => (checked (ConnAck.decode buf)).map fun c => some (.connAck c)
    | 3 => (checked (Publish.decode buf)).map fun p => some (.publish p)
    | 4 => (checked (PubAck.decode buf)).map fun p => some (.pubAck p)
    | 8 => (checked (Subscribe.decode buf)).map fun s => some (.subscribe s)
    | 9 => (SubAck.decode buf).map fun s => some (.subAck s)
    | 12 => .ok (some .pingReq)
    | 13 => .ok (some .pingResp)
    | 14 => .ok (some .disconnect)
    | packetType => .error (.invalidPacketType packetType)

/-- What `client.connect()` makes of an answer. -/
inductive Answer where
  | accepted | refused | panics
  deriving DecidableEq, Repr

/-- The end of `client.connect()`. -/
def answer (buf : Bytes) : Answer :=
  match decode buf with
  | .ok (some (.connAck c)) => if c.reasonCode = 0 then .accepted else .refused
  | .error .outOfBounds => .panics
  | _ => .refused

/-! ## Which answers are accepted, and which panic -/

theorem index_of_lt {buf : Bytes} {i : Nat} (h : i < buf.length) : ∃ b, index buf i = .ok b := ⟨buf[i], by simp [index, h]⟩

theorem index_of_le {buf : Bytes} {i : Nat} (h : buf.length ≤ i) : index buf i = .error .outOfBounds := by simp [index, h]

/-- What neither the first part nor the rest of a decoder panics with, it does not panic with. -/
theorem bind_ne {α β : Type} {x : Except AnswerError α} {f : α → Except AnswerError β} {e : AnswerError} (hx : x ≠ .error e)
    (hf : ∀ a, f a ≠ .error e) : (x >>= f) ≠ .error e := by
  cases x with
  | error e' => simpa [bind, Except.bind] using hx
  | ok a => exact hf a

theorem checked_ne {α : Type} (result : Except DecodeError α) : checked result ≠ .error .outOfBounds := by
  cases result <;> simp [checked, Except.mapError]

/-- The decoder of CONNECT panics exactly if the packet ends before the client id. -/
theorem Connect.decode_panics_iff (buf : Bytes) : Connect.decode buf = .error .outOfBounds ↔ buf.length < 11 := by
  constructor
  · intro hpanics
    by_contra hlong
    obtain ⟨flags, h8⟩ : ∃ b, index buf 8 = .ok b := index_of_lt (by omega)
    obtain ⟨hi, h9⟩ : ∃ b, index buf 9 = .ok b := index_of_lt (by omega)
    obtain ⟨lo, h10⟩ : ∃ b, index buf 10 = .ok b := index_of_lt (by omega)
    refine absurd hpanics ?_
    unfold Connect.decode
    simp only [h8, h9, h10, bind, Except.bind]
    refine bind_ne (checked_ne _) fun clientId => bind_ne (checked_ne _) fun username => bind_ne (checked_ne _) fun password => ?_
    nofun
  · intro hshort
    unfold Connect.decode
    by_cases hlen8 : buf.length ≤ 8
    · rw [index_of_le hlen8]
      rfl
    · obtain ⟨flags, h8⟩ : ∃ b, index buf 8 = .ok b := index_of_lt (by omega)
      rw [h8]
      by_cases hlen9 : buf.length ≤ 9
      · rw [index_of_le hlen9]
        rfl
      · obtain ⟨hi, h9⟩ : ∃ b, index buf 9 = .ok b := index_of_lt (by omega)
        have hlen10 : buf.length ≤ 10 := by omega
        rw [h9, index_of_le hlen10]
        rfl

theorem SubAck.decode_ne (buf : Bytes) : SubAck.decode buf ≠ .error .outOfBounds := by
  unfold SubAck.decode
  split
  · simp only
    split
    · split
      · split <;> simp
      · simp
    · simp
  · simp

theorem map_eq_error_iff {α β : Type} {x : Except AnswerError α} {f : α → β} {e : AnswerError} : x.map f = .error e ↔ x = .error e := by
  cases x <;> simp [Except.map]

theorem decode_panics_iff (buf : Bytes) : decode buf = .error .outOfBounds ↔ (buf.headD 0).toNat / 16 = 1 ∧ buf.length < 11 := by
  cases buf with
  | nil => simp [decode]
  | cons header bytes =>
    show decode (header :: bytes) = _ ↔ header.toNat / 16 = 1 ∧ _
    rw [← Connect.decode_panics_iff]
    by_cases hconnect : header.toNat / 16 = 1
    · simp [decode, hconnect, map_eq_error_iff]
    · unfold decode
      simp only [hconnect, false_and, iff_false]
      split <;> simp [map_eq_error_iff, checked_ne, SubAck.decode_ne]
      contradiction

theorem answer_panics_iff (buf : Bytes) : answer buf = .panics ↔ (buf.headD 0).toNat / 16 = 1 ∧ buf.length < 11 := by
  rw [← decode_panics_iff]
  unfold answer
  split
  · split <;> simp [*]
  · simp [*]
  · simp_all

theorem answer_eq_accepted {buf : Bytes} : answer buf = .accepted ↔ ∃ c, decode buf = .ok (some (.connAck c)) ∧ c.reasonCode = 0 := by
  unfold answer
  split
  · split <;> simp [*]
  · simp [*]
  · simp_all

/-- Only a CONNACK is decoded as one. -/
theorem decode_ne_connAck {header : UInt8} (h : header.toNat / 16 ≠ 2) (bytes : Bytes) (c : ConnAck) :
    decode (header :: bytes) ≠ .ok (some (.connAck c)) := by
  have hother {α : Type} (x : Except AnswerError α) {f : α → MqttPacket} (hf : ∀ a, f a ≠ .connAck c) :
      x.map (fun a => some (f a)) ≠ .ok (some (.connAck c)) := by
    cases x <;> simp [Except.map, hf]
  unfold decode
  simp only
  split
  case h_2 hconnAck => exact absurd hconnAck h
  case h_7 | h_8 | h_9 | h_10 => simp
  all_goals exact hother _ (by simp)

/-- An answer that accepts the connection is a CONNACK. -/
theorem header_of_accepted {buf : Bytes} (h : answer buf = .accepted) : (buf.headD 0).toNat / 16 = 2 := by
  obtain ⟨c, hdecode, -⟩ := answer_eq_accepted.mp h
  cases buf with
  | nil => cases hdecode
  | cons header bytes =>
    by_contra hconnAck
    exact decode_ne_connAck hconnAck bytes c hdecode

end GateLink
