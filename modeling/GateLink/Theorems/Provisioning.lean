import GateLink.Provisioning
import GateLink.Lemmas.Packet
import Mathlib.Algebra.GroupWithZero.Nat

/-!
# Limits and buffers on the provisioning path

What the validation of the form accepts fits the record buffer of the flash and the buffer of the MQTT client. The body that a browser
sends for it does not always fit the HTTP buffer: each byte that has to be escaped takes three, and the limits allow for 352 of them.
How long the body is follows from the fields alone (`SubmittedForm.length_body`).

The HTTP server is a library: whether it reads a request is a parameter. It has the one buffer for the head of the request and the body, and
how long the head is is up to the browser.
-/

namespace GateLink

/-- A byte that is sent as `%XX`. -/
def escaped (unreserved : UInt8 → Bool) (b : UInt8) : Bool := !unreserved b && b ≠ 0x20

/-- How many bytes of a text are escaped. -/
def escapes (unreserved : UInt8 → Bool) (s : String) : Nat := (utf8 s).countP (escaped unreserved)

/-- The text fields of the form. -/
def SubmittedForm.texts (f : SubmittedForm) : List String := [f.ssid, f.wifiPassword, f.mqttHost, f.mqttUsername, f.mqttPassword]

/-- The configuration can be submitted, stored and connected with, if the server reads the bodies of these lengths. -/
structure SubmittedForm.Usable (unreserved : UInt8 → Bool) (reads : Nat → Prop) (f : SubmittedForm) (c : AppConfig) : Prop where
  submitted : reads (f.body unreserved).length
  stored : (configKey :: c.toPostcard).length ≤ dataBufferLen
  connected : ∃ packet, (connectPacket c.credentials).encode = .ok packet ∧ packet.length ≤ mqttBufferSize

namespace ProvisioningAux

/-! ## The body -/

/-- A byte takes one byte of the form, or three. -/
theorem length_encodeByte (unreserved : UInt8 → Bool) (b : UInt8) :
    (encodeByte unreserved b).length = 1 + 2 * (escaped unreserved b).toNat := by
  unfold encodeByte escaped
  cases hu : unreserved b with
  | true => simp
  | false => by_cases hb : b = 0x20 <;> simp [hb]

/-- A byte that is escaped takes two more. -/
theorem length_urlencode (unreserved : UInt8 → Bool) (s : String) :
    (urlencode unreserved s).length = byteLen s + 2 * escapes unreserved s := by
  unfold urlencode byteLen escapes
  induction utf8 s with
  | nil => rfl
  | cons b bytes ih =>
    rw [List.flatMap_cons, List.length_append, length_encodeByte, ih, List.countP_cons, List.length_cons]
    cases escaped unreserved b <;> simp <;> omega

/-- A field takes its name, an equals sign and its value. -/
theorem length_formField (name : String) (value : Bytes) : (formField name value).length = byteLen name + 1 + value.length := by
  unfold formField byteLen
  rw [List.length_append, List.length_cons]
  omega

end ProvisioningAux

open ProvisioningAux

/-- The names of the fields and what separates them take 72 bytes; the rest is up to the fields. -/
theorem SubmittedForm.length_body (unreserved : UInt8 → Bool) (f : SubmittedForm) :
    (f.body unreserved).length =
      72 + (f.texts.map byteLen).sum + 2 * (f.texts.map (escapes unreserved)).sum + byteLen (toString f.mqttPort.toNat) := by
  have hssid : byteLen "ssid" = 4 := by decide
  have hpsk : byteLen "wifi_password" = 13 := by decide
  have hhost : byteLen "mqtt_host" = 9 := by decide
  have hport : byteLen "mqtt_port" = 9 := by decide
  have huser : byteLen "mqtt_username" = 13 := by decide
  have hpass : byteLen "mqtt_password" = 13 := by decide
  have hdigits : (utf8 (toString f.mqttPort.toNat)).length = byteLen (toString f.mqttPort.toNat) := rfl
  simp only [body, List.intercalate, List.intersperse, List.flatten_cons, List.flatten_nil, List.length_append, List.length_singleton,
    List.length_nil, length_formField, length_urlencode, hdigits, hssid, hpsk, hhost, hport, huser, hpass, texts, List.map_cons,
    List.map_nil, List.sum_cons, List.sum_nil]
  clear hssid hpsk hhost hport huser hpass hdigits
  omega

namespace ProvisioningAux

/-! ## What is accepted -/

/-- What the validation has checked of a form it accepts, and what becomes of it. -/
structure Accepted (f : SubmittedForm) (c : AppConfig) : Prop where
  ssid : byteLen f.ssid ≤ maxSsidLen
  wifiPassword : byteLen f.wifiPassword ≤ maxPskLen
  mqttHost : byteLen f.mqttHost ≤ maxHostLen
  mqttUsername : byteLen f.mqttUsername ≤ maxCredLen
  mqttPassword : byteLen f.mqttPassword ≤ maxCredLen
  config : c = { wifiSsid := f.ssid, wifiPassword := f.wifiPassword, mqttHost := f.mqttHost, mqttPort := f.mqttPort,
                 mqttUsername := nonEmpty f.mqttUsername, mqttPassword := nonEmpty f.mqttPassword }

/-- A form that is accepted was checked. -/
theorem accepted_of_ok {f : SubmittedForm} {c : AppConfig} (h : f.intoConfig = .ok c) : Accepted f c := by
  unfold SubmittedForm.intoConfig at h
  split_ifs at h with h1 h2 h3 h4 h5 h6
  obtain ⟨hu, hp⟩ := not_or.mp h6
  exact ⟨Nat.le_of_not_lt h2, Nat.le_of_not_lt h3, Nat.le_of_not_lt h5, Nat.le_of_not_lt hu, Nat.le_of_not_lt hp,
    (Except.ok.inj h).symm⟩

/-- A field that is not empty is kept as it is. -/
theorem nonEmpty_eq_some {s s' : String} (h : nonEmpty s = some s') : s' = s := by
  unfold nonEmpty at h
  split at h
  · cases h
  · exact (Option.some.inj h).symm

/-! ## The record -/

/-- A variable-byte integer below a power of 128 has no more digits than the exponent. -/
theorem length_writeDigits {turns val k : Nat} (h : val < 128 ^ (k + 1)) : (writeDigits turns val).length ≤ k + 1 := by
  induction turns generalizing val k with
  | zero => exact Nat.succ_le_succ (Nat.zero_le k)
  | succ turns ih =>
    rw [writeDigits]
    split
    · exact Nat.succ_le_succ (Nat.zero_le k)
    · rename_i hdiv
      rw [List.length_cons]
      cases k with
      | zero =>
        rw [Nat.zero_add, Nat.pow_one] at h
        exact absurd (Nat.div_eq_of_lt h) hdiv
      | succ k =>
        rw [Nat.pow_succ] at h
        exact Nat.succ_le_succ (ih (Nat.div_lt_of_lt_mul (by omega)))

/-- A number takes a byte for each seven bits. -/
theorem length_postcardVarint {n k : Nat} (h : n < 128 ^ (k + 1)) : (postcardVarint n).length ≤ k + 1 := length_writeDigits h

/-- A text takes its length and its bytes. -/
theorem length_postcardStr {s : String} {k : Nat} (h : byteLen s < 128 ^ (k + 1)) : (postcardStr s).length ≤ k + 1 + byteLen s := by
  have hv := length_postcardVarint h
  unfold postcardStr
  rw [List.length_append]
  exact Nat.add_le_add_right hv _

/-- A text that is left out takes no more than one that is not. -/
theorem length_postcardOption {s : String} (h : byteLen s ≤ maxCredLen) : (postcardOption (nonEmpty s)).length ≤ 2 + maxCredLen := by
  unfold maxCredLen at h ⊢
  cases hs : nonEmpty s with
  | none => simp [postcardOption]
  | some s' =>
    obtain rfl := nonEmpty_eq_some hs
    have hstr := length_postcardStr (s := s') (k := 0) (by omega)
    simp only [postcardOption, List.length_cons]
    omega

/-- The record of an accepted form fits into the buffer of the storage. -/
theorem Accepted.stored {f : SubmittedForm} {c : AppConfig} (h : Accepted f c) : (configKey :: c.toPostcard).length ≤ dataBufferLen := by
  obtain ⟨hssid, hpsk, hhost, huser, hpass, rfl⟩ := h
  have huser' := length_postcardOption huser
  have hpass' := length_postcardOption hpass
  unfold maxSsidLen at hssid
  unfold maxPskLen at hpsk
  unfold maxHostLen at hhost
  unfold maxCredLen at huser' hpass'
  have hssid' := length_postcardStr (s := f.ssid) (k := 0) (by omega)
  have hpsk' := length_postcardStr (s := f.wifiPassword) (k := 0) (by omega)
  have hhost' := length_postcardStr (s := f.mqttHost) (k := 1) (by omega)
  have hport : (postcardVarint f.mqttPort.toNat).length ≤ 2 + 1 := length_postcardVarint (by have := f.mqttPort.toNat_lt; omega)
  unfold AppConfig.toPostcard dataBufferLen
  simp only [List.length_cons, List.length_append]
  omega

/-! ## The packet -/

/-- Bytes that fit are put into the packet. -/
theorem put_ok (e : EncodeError) (data content : Bytes) (h : contentStart + content.length + data.length ≤ mqttBufferSize) :
    ∃ content', put e data content = .ok content' ∧ content'.length = content.length + data.length :=
  ⟨content ++ data, if_pos h, List.length_append⟩

/-- Data that fits with its length in front is put into the packet. -/
theorem writeBinaryData_ok (data content : Bytes) (h : contentStart + content.length + (2 + data.length) ≤ mqttBufferSize) :
    ∃ content', writeBinaryData data content = .ok content' ∧ content'.length = content.length + (2 + data.length) := by
  have hlen : (toBeBytes data.length ++ data).length = 2 + data.length := by
    rw [List.length_append]
    rfl
  have hsmall : ¬65535 < data.length := by
    unfold mqttBufferSize at h
    omega
  unfold writeBinaryData
  rw [if_neg hsmall, ← hlen]
  exact put_ok _ _ _ (by rw [hlen]; exact h)

/-- How long what `writeIfSome` writes is, with the two bytes of its length. -/
def partLen {α : Type} (len : α → Nat) (o : Option α) : Nat := o.elim 0 fun x => 2 + len x

/-- A part that fits is written, if it is there. -/
theorem writeIfSome_ok {α : Type} (write : α → Bytes → Except EncodeError Bytes) (len : α → Nat) (o : Option α) (content : Bytes)
    (hwrite : ∀ x, contentStart + content.length + (2 + len x) ≤ mqttBufferSize →
      ∃ content', write x content = .ok content' ∧ content'.length = content.length + (2 + len x))
    (h : contentStart + content.length + partLen len o ≤ mqttBufferSize) :
    ∃ content', writeIfSome write o content = .ok content' ∧ content'.length = content.length + partLen len o := by
  cases o with
  | none => exact ⟨content, rfl, rfl⟩
  | some x => exact hwrite x h

/-- A CONNECT packet whose parts fit the buffer is encoded, with a content as long as its parts. -/
theorem encode_connect {c : Connect}
    (h : 17 + byteLen c.clientId + partLen byteLen c.username + partLen List.length c.password ≤ mqttBufferSize) :
    ∃ content, c.encode = .ok (framed 0x10 content) ∧
      content.length = 12 + byteLen c.clientId + partLen byteLen c.username + partLen List.length c.password := by
  have hmqtt : (utf8 "MQTT").length = 4 := by decide
  have hid : (utf8 c.clientId).length = byteLen c.clientId := rfl
  have hlen (n : Nat) : (toBeBytes n).length = 2 := rfl
  unfold mqttBufferSize at h
  obtain ⟨c1, h1, l1⟩ := writeBinaryData_ok (utf8 "MQTT") [] (by rw [hmqtt]; decide)
  rw [hmqtt, List.length_nil] at l1
  obtain ⟨c2, h2, l2⟩ := put_ok .outOfBounds [4] c1 (by rw [l1]; decide)
  rw [l1, List.length_singleton] at l2
  obtain ⟨c3, h3, l3⟩ := put_ok .outOfBounds [UInt8.ofNat c.flags] c2
    (by rw [l2, List.length_singleton]; decide)
  rw [l2, List.length_singleton] at l3
  obtain ⟨c4, h4, l4⟩ := put_ok .outOfBounds (toBeBytes c.keepAlive) c3 (by rw [l3, hlen]; decide)
  have l4' : c4.length = 10 := by rw [l4, l3, hlen]
  obtain ⟨c5, h5, l5⟩ := writeBinaryData_ok (utf8 c.clientId) c4
    (by rw [l4', hid]; unfold contentStart mqttBufferSize; omega)
  rw [l4', hid] at l5
  obtain ⟨c6, h6, l6⟩ := writeIfSome_ok writeUtf8String byteLen c.username c5
    (fun _ => writeBinaryData_ok _ _) (by rw [l5]; unfold contentStart mqttBufferSize; omega)
  obtain ⟨c7, h7, l7⟩ := writeIfSome_ok writeBinaryData List.length c.password c6
    (fun _ => writeBinaryData_ok _ _) (by rw [l6, l5]; unfold contentStart mqttBufferSize; omega)
  refine ⟨c7, ?_, by rw [l7, l6, l5]; omega⟩
  simp only [Connect.encode, writeUtf8String, h1, h2, h3, h4, h5, h6, h7, bind, Except.bind]

/-- A part is no longer than its bound allows. -/
theorem partLen_le {α : Type} {len : α → Nat} {o : Option α} {n : Nat} (h : ∀ x, o = some x → len x ≤ n) :
    partLen len o ≤ 2 + n := by
  cases o with
  | none => exact Nat.zero_le _
  | some x => exact Nat.add_le_add_left (h x rfl) 2

/-- The CONNECT of an accepted form is encoded, and fits. -/
theorem Accepted.connected {f : SubmittedForm} {c : AppConfig} (h : Accepted f c) :
    ∃ packet, (connectPacket c.credentials).encode = .ok packet ∧ packet.length ≤ mqttBufferSize := by
  obtain ⟨-, -, -, huser, hpass, rfl⟩ := h
  have hid : byteLen "mqtt_gate" = 9 := by decide
  have hcred (credentials : String × Bytes)
      (hc : AppConfig.credentials ⟨f.ssid, f.wifiPassword, f.mqttHost, f.mqttPort, nonEmpty f.mqttUsername, nonEmpty f.mqttPassword⟩ =
        some credentials) : byteLen credentials.1 ≤ maxCredLen ∧ credentials.2.length ≤ maxCredLen := by
    unfold AppConfig.credentials at hc
    dsimp only at hc
    split at hc
    · rename_i username password hu hp
      obtain rfl := Option.some.inj hc
      obtain rfl := nonEmpty_eq_some hu
      obtain rfl := nonEmpty_eq_some hp
      exact ⟨huser, hpass⟩
    · cases hc
  generalize AppConfig.credentials _ = credentials at hcred ⊢
  have hu : partLen byteLen (connectPacket credentials).username ≤ 2 + maxCredLen := by
    refine partLen_le fun x hx => ?_
    obtain ⟨pair, hpair, rfl⟩ := Option.map_eq_some_iff.mp hx
    exact (hcred pair hpair).1
  have hp : partLen List.length (connectPacket credentials).password ≤ 2 + maxCredLen := by
    refine partLen_le fun x hx => ?_
    obtain ⟨pair, hpair, rfl⟩ := Option.map_eq_some_iff.mp hx
    exact (hcred pair hpair).2
  have hclient : byteLen (connectPacket credentials).clientId = 9 := hid
  unfold maxCredLen at hu hp
  obtain ⟨content, henc, hlen⟩ := encode_connect (c := connectPacket credentials)
    (by rw [hclient]; unfold mqttBufferSize; omega)
  refine ⟨_, henc, ?_⟩
  have hdigits : (writeVariableByteInteger content.length).length ≤ 1 + 1 :=
    length_writeDigits (by rw [hlen, hclient]; omega)
  rw [length_framed]
  unfold mqttBufferSize
  omega

end ProvisioningAux

/-- When a configuration that is accepted can be submitted, stored and connected with, if the server reads a request exactly if its head and
its body fit the HTTP buffer together: exactly if the text fields, with two bytes more for each byte of them that has to be escaped, the
digits of the port and the head take no more than 952 bytes. -/
theorem accepted_usable_iff (unreserved : UInt8 → Bool) (reads : Nat → Nat → Prop)
    (hreads : ∀ head body, reads head body ↔ head + body ≤ httpBufferLen) (head : Nat) {f : SubmittedForm} {c : AppConfig}
    (h : f.intoConfig = .ok c) :
    f.Usable unreserved (reads head) c ↔
      (f.texts.map byteLen).sum + 2 * (f.texts.map (escapes unreserved)).sum + byteLen (toString f.mqttPort.toNat) + head ≤ 952 := by
  have ha := accepted_of_ok h
  have hbody := f.length_body unreserved
  constructor
  · rintro ⟨hsubmitted, -, -⟩
    rw [hreads] at hsubmitted
    unfold httpBufferLen at hsubmitted
    omega
  · intro hfits
    refine ⟨?_, ha.stored, ha.connected⟩
    rw [hreads]
    unfold httpBufferLen
    omega

/-- A form of a usual installation. -/
def usualForm : SubmittedForm where
  ssid := "My Wifi"
  wifiPassword := "p@ss w&rd=1"
  mqttHost := "192.168.1.10"
  mqttPort := 1883
  mqttUsername := "ha"
  mqttPassword := ""

/-- The form of a usual installation is accepted, and usable with a head of 600 bytes. -/
theorem usualForm_usable :
    ∃ c, usualForm.intoConfig = .ok c ∧ usualForm.Usable browserUnreserved (fun body => 600 + body ≤ httpBufferLen) c :=
  ⟨_, rfl, (accepted_usable_iff browserUnreserved (fun head body => head + body ≤ httpBufferLen) (fun _ _ => Iff.rfl) 600 rfl).mpr
    (by decide +kernel)⟩

/-- A form whose fields are as long as they may be, in a script whose letters take two bytes. -/
def longForm : SubmittedForm where
  ssid := String.ofList (List.replicate 16 'ü')
  wifiPassword := String.ofList (List.replicate 32 'ü')
  mqttHost := String.ofList (List.replicate 64 'ü')
  mqttPort := 1883
  mqttUsername := String.ofList (List.replicate 32 'ü')
  mqttPassword := String.ofList (List.replicate 32 'ü')

/-- It is accepted, but what the browser sends for it does not fit the HTTP buffer, not even with an empty head. -/
theorem longForm_not_usable :
    ∃ c, longForm.intoConfig = .ok c ∧ (longForm.body browserUnreserved).length = 1132 ∧
      ¬longForm.Usable browserUnreserved (fun body => body ≤ httpBufferLen) c := by
  have hlen : (longForm.body browserUnreserved).length = 1132 := by decide +kernel
  refine ⟨_, rfl, hlen, fun h => ?_⟩
  have hle := h.submitted
  rw [hlen] at hle
  exact absurd hle (by decide)

end GateLink
