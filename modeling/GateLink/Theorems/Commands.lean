import GateLink.Lemmas.Device
import GateLink.Theorems.Inbound

/-!
# The commands of the broker

A message goes from the byte stream of a connection into a queue, from there to the handler, and if it is a command, to the gate. On this
way none is lost, doubled or overtaken (`commands_executed`): what the handler has taken since boot and what waits for it is what was passed
on, connection after connection, and the commands executed are those of the messages taken, as `Command.parse` has them: no message but the
one of a command is taken for it (`command_eq_some_iff`).
-/

namespace GateLink

open Machine Framing

namespace Device

/-- A new connection comes up. -/
def Connects (d : Device) : Event → Prop
  | .step io => d.mqtt.Connects (.step io)
  | _ => False

/-- A run decides where its connections come up. -/
instance (d : Device) : (e : Event) → Decidable (d.Connects e)
  | .step io => inferInstanceAs (Decidable (d.mqtt.Connects (.step io)))
  | .pollGate _ _ | .locked | .saveReturns _ | .sampleButton _ _ | .readBarrier _ _ | .handle | .discover | .sleep _ | .wake => isFalse id

/-- The command that is executed for a message. -/
def executes (d : Device) : Event → List Command
  | .handle => if d.Idle then ((d.handler.takes d.mqtt).bind IncomingMessage.command).toList else []
  | _ => []

end Device

/-- The device with what was received and passed on on this connection. `earlier` are the messages that were passed on on the connections
before, and `executed` the commands of the broker that were executed since boot. -/
structure Observed where
  device : Device
  inbound : Inbound
  earlier : List IncomingMessage
  executed : List Command

namespace Observed

/-- A new connection starts the account anew. -/
def next (o : Observed) (e : Device.Event) : Observed where
  device := o.device.next e
  inbound := run Inbound.next o.inbound (o.device.mqttEvents e)
  earlier := if o.device.Connects e then o.earlier ++ o.inbound.delivered else o.earlier
  executed := o.executed ++ o.device.executes e

/-- Nothing was received before boot. -/
def boot (credentials : Option (String × Bytes)) (a b : MotorSettings) (flash : Option GateState) : Observed where
  device := Device.boot credentials a b flash
  inbound := { mqtt := Mqtt.boot credentials, received := [], delivered := [] }
  earlier := []
  executed := []

/-- A run from boot. -/
def after (credentials : Option (String × Bytes)) (a b : MotorSettings) (flash : Option GateState) (events : List Device.Event) : Observed :=
  run next (boot credentials a b flash) events

end Observed

/-- A message is for a command exactly if it is the one of this command. -/
theorem command_eq_some_iff {m : IncomingMessage} {c : Command} :
    m.command = some c ↔ m = { topic := c.topic, payload := utf8 c.payload } := by
  obtain ⟨topic, payload⟩ := m
  have htext : (fromUtf8 payload).getD "" = c.payload ↔ payload = utf8 c.payload := Command.getD_fromUtf8_eq_iff c.payload_ne_empty
  have hparsed : (Command.parse topic payload).toOption = some c ↔ Command.parse topic payload = .ok c := by
    cases Command.parse topic payload <;> simp [Except.toOption]
  rw [IncomingMessage.command, hparsed, Command.parse_text_iff, htext, IncomingMessage.mk.injEq]

namespace CommandsAux

open Mqtt

variable {s : Mqtt}

/-! ## The queue of the handler -/

/-- Only a message that is passed on changes the queue. -/
theorem does_incoming {s' : Mqtt} {io : Io} (hdoes : Does s io s') (hplace : ∀ message, s.place ≠ .delivering message) :
    s'.incoming = s.incoming := by
  cases hdoes with
  | ends _ hincoming => exact hincoming
  | puts hm => exact absurd hm (hplace _)
  | publishes _ _ _ hid =>
    obtain ⟨-, rfl, -⟩ | ⟨-, rfl, -⟩ := hid <;> rfl
  | @completes w => cases w <;> rfl
  | opens | receives | connects | resubscribes | signals | polls | pings | skips | acks | delivers | subscribes | rings | waits | suspends
  | accepts | idles => rfl

/-- A step of the task puts into the queue what it passes on. -/
theorem step_incoming (s : Mqtt) (io : Io) : (s.next (.step io)).incoming = s.incoming ++ s.passes (.step io) := by
  rcases next_cases s (.step io) with ⟨io', hio, hrunning, hdoes⟩ | ⟨hquiet, -⟩
  · cases hio
    by_cases hplace : ∃ message, s.place = .delivering message
    · obtain ⟨message, hplace⟩ := hplace
      have hnext : s.next (.step io) = s.step io := if_pos hrunning
      rw [hnext]
      unfold step passes Queue.trySend
      rw [hplace]
      by_cases hroom : s.incoming.length < queueDepth
      · simp [hroom, hrunning, Place.inHand]
      · simp [hroom, suspend]
    · have hother : ∀ message, s.place ≠ .delivering message := fun message hm => hplace ⟨message, hm⟩
      rw [InboundAux.passes_of_place hother, List.append_nil]
      exact does_incoming hdoes hother
  · have hrunning : s.running ≠ true := fun h => hquiet ⟨io, rfl, h⟩
    have hnothing : s.next (.step io) = s := if_neg hrunning
    have hnone : s.passes (.step io) = [] := if_neg fun h => hrunning h.1
    rw [hnothing, hnone, List.append_nil]

/-- The events that leave the queue alone: all but the steps of the task, and the handler taking a message. -/
def Spared : Mqtt.Event → Prop
  | .step _ | .receive => False
  | _ => True

/-- An event that spares the queue leaves it alone. -/
theorem next_incoming (s : Mqtt) {e : Mqtt.Event} (he : Spared e) : (s.next e).incoming = s.incoming := by
  have hbetween {s' : Mqtt} (h : s'.incoming = s.incoming) : (s.between s').incoming = s.incoming :=
    between_rule (P := fun s' : Mqtt => s'.incoming = s.incoming) rfl h
  cases e with
  | sleep => rfl
  | wake | publishState => exact hbetween rfl
  | discovery c =>
    refine hbetween ?_
    unfold discovery
    split <;> rfl
  | register sub =>
    refine hbetween ?_
    unfold register
    simp only
    split <;> rfl
  | resume caller =>
    refine hbetween ?_
    unfold resume
    split
    · split <;> rfl
    · rfl
  | step | receive => exact he.elim

/-- Nothing is received or passed on but in a step of the task. -/
theorem next_delivered (i : Inbound) {e : Mqtt.Event} (he : ∀ io, e ≠ .step io) : (i.next e).delivered = i.delivered := by
  have hconnects : ¬i.mqtt.Connects e := fun h => he _ h.2.2
  have hpasses : i.mqtt.passes e = [] := by
    cases e with
    | step io => exact absurd rfl (he io)
    | sleep | wake | publishState | discovery | register | resume | receive => rfl
  show (if i.mqtt.Connects e then [] else i.delivered ++ i.mqtt.passes e) = _
  rw [if_neg hconnects, hpasses, List.append_nil]

/-- A run without a step of the task passes nothing on. -/
theorem run_delivered {i : Inbound} {events : List Mqtt.Event} (he : ∀ e ∈ events, ∀ io, e ≠ .step io) :
    (run Inbound.next i events).delivered = i.delivered := by
  induction events generalizing i with
  | nil => rfl
  | cons e events ih =>
    obtain ⟨hfirst, hrest⟩ := List.forall_mem_cons.mp he
    rw [run_cons, ih hrest, next_delivered i hfirst]

/-- A run of events that spare the queue leaves it alone. -/
theorem run_incoming {events : List Mqtt.Event} (he : ∀ e ∈ events, Spared e) : (run Mqtt.next s events).incoming = s.incoming := by
  induction events generalizing s with
  | nil => rfl
  | cons e events ih =>
    obtain ⟨hfirst, hrest⟩ := List.forall_mem_cons.mp he
    rw [run_cons, ih hrest, next_incoming s hfirst]

/-! ## The device -/

/-- What was passed on was handled or waits for the handler, and the commands of what was handled were executed. -/
structure Served (o : Observed) : Prop where
  mqtt : o.inbound.mqtt = o.device.mqtt
  known : InboundAux.Known o.inbound
  queued : o.device.handled ++ o.device.mqtt.incoming = o.earlier ++ o.inbound.delivered
  executed : o.executed = o.device.handled.filterMap IncomingMessage.command

/-- The message that the handler takes. -/
def taken (d : Device) : Device.Event → List IncomingMessage
  | .handle => if d.Idle then (d.handler.takes d.mqtt).toList else []
  | _ => []

/-- Only the handler takes a message. -/
theorem handled_next (d : Device) (e : Device.Event) : (d.next e).handled = d.handled ++ taken d e := by
  have hrest : (d.next e).handled = (if d.Idle then d.restNext e else d.rest).handled := congrArg Device.Rest.handled (d.rest_next e)
  rw [hrest]
  by_cases hidle : d.Idle
  · cases e with
    | handle => simp [taken, hidle, Device.restNext]
    | sampleButton button low =>
      cases hsample : (d.debouncers button).sample low <;> simp [taken, hidle, Device.restNext, Device.rest, hsample]
    | pollGate | locked | saveReturns | readBarrier | discover | sleep | wake | step =>
      simp [taken, hidle, Device.restNext, Device.rest]
  · have hnone : taken d e = [] := by cases e <;> simp [taken, hidle]
    rw [if_neg hidle, hnone, List.append_nil]
    rfl

/-- The handler takes the first message of the queue. -/
theorem handler_incoming (h : Handler) (hrunning : s.running = false) (hplace : s.place ≠ .panicked) :
    s.incoming = (h.takes s).toList ++ (h.acts s).incoming := by
  cases h with
  | subscribing rest =>
    cases rest with
    | nil => rfl
    | cons topic rest => exact (next_incoming s (e := .register _) trivial).symm
  | sending rest => exact (next_incoming s (e := .resume 0) trivial).symm
  | receiving =>
    have hnext : s.next .receive = { s with incoming := s.incoming.tail } := if_neg fun h => h.elim (by simp [hrunning]) hplace
    show s.incoming = s.incoming.head?.toList ++ (s.next .receive).incoming
    rw [hnext]
    cases s.incoming <;> rfl

/-- An event that is no step of the task moves messages from the queue to what was handled. -/
theorem incoming_next (d : Device) {e : Device.Event} (he : ∀ io, e ≠ .step io) : d.mqtt.incoming = taken d e ++ (d.next e).mqtt.incoming := by
  have hspared (h : ∀ e' ∈ d.mqttEvents e, Spared e') : (d.next e).mqtt.incoming = d.mqtt.incoming := by
    rw [Device.mqtt_next]
    exact run_incoming h
  cases e with
  | handle =>
    by_cases hidle : d.Idle
    · rw [Device.mqtt_next, Device.mqttEvents_idle hidle (by simp) (by simp), Device.idleEvents, run_append, ← Handler.acts_eq,
        run_incoming (by simp [Spared]), taken, if_pos hidle]
      exact handler_incoming d.handler hidle.1 hidle.2.1
    · rw [hspared (by simp [Device.mqttEvents, hidle]), taken, if_neg hidle]
      rfl
  | step io => exact absurd rfl (he io)
  | sleep t => exact (hspared (by simp [Device.mqttEvents, Spared])).symm
  | pollGate | locked | saveReturns | sampleButton | readBarrier | discover | wake =>
    refine (hspared ?_).symm
    by_cases hidle : d.Idle <;> simp [Device.mqttEvents, Device.idleEvents, hidle, Spared]

/-- Every event keeps the account of what the handler has taken. -/
theorem served_next (o : Observed) (e : Device.Event) (h : Served o) : Served (o.next e) := by
  obtain ⟨hmqtt, hknown, hqueued, hexecuted⟩ := h
  refine ⟨?_, run_always InboundAux.known_next hknown _, ?_, ?_⟩
  · show (run Inbound.next o.inbound (o.device.mqttEvents e)).mqtt = (o.device.next e).mqtt
    rw [InboundAux.run_mqtt, hmqtt, Device.mqtt_next]
  · show (o.device.next e).handled ++ (o.device.next e).mqtt.incoming =
      (if o.device.Connects e then o.earlier ++ o.inbound.delivered else o.earlier) ++
        (run Inbound.next o.inbound (o.device.mqttEvents e)).delivered
    by_cases he : ∀ io, e ≠ .step io
    · have hconnects : ¬o.device.Connects e := by
        cases e with
        | step io => exact absurd rfl (he io)
        | pollGate | locked | saveReturns | sampleButton | readBarrier | handle | discover | sleep | wake => exact id
      rw [if_neg hconnects, run_delivered (o.device.mqttEvents_ne_step he), handled_next, List.append_assoc, ← incoming_next o.device he]
      exact hqueued
    · obtain ⟨io, hio⟩ := Classical.not_forall.mp he
      obtain rfl := Classical.not_not.mp hio
      have hincoming : (o.device.next (.step io)).mqtt.incoming = o.device.mqtt.incoming ++ o.device.mqtt.passes (.step io) :=
        step_incoming o.device.mqtt io
      show o.device.handled ++ (o.device.next (.step io)).mqtt.incoming = _ ++ (o.inbound.next (.step io)).delivered
      rw [hincoming, ← List.append_assoc, hqueued]
      show _ = (if o.device.mqtt.Connects (.step io) then _ else _) ++
        (if o.inbound.mqtt.Connects (.step io) then [] else o.inbound.delivered ++ o.inbound.mqtt.passes (.step io))
      rw [hmqtt]
      split
      · rename_i hconnects
        rw [InboundAux.passes_of_place (by simp [hconnects.2.1])]
      · exact List.append_assoc _ _ _
  · show o.executed ++ o.device.executes e = (o.device.next e).handled.filterMap IncomingMessage.command
    rw [handled_next, List.filterMap_append, hexecuted]
    congr 1
    cases e with
    | handle =>
      by_cases hidle : o.device.Idle
      · rw [Device.executes, taken, if_pos hidle, if_pos hidle]
        cases o.device.handler.takes o.device.mqtt with
        | none => rfl
        | some m => cases hc : m.command <;> simp [hc]
      · rw [Device.executes, taken, if_neg hidle, if_neg hidle]
        rfl
    | pollGate | locked | saveReturns | sampleButton | readBarrier | discover | sleep | wake | step => rfl

/-- So it is right in every run. -/
theorem served_after (credentials : Option (String × Bytes)) (a b : MotorSettings) (flash : Option GateState) (events : List Device.Event) :
    Served (Observed.after credentials a b flash events) :=
  run_always served_next (s := Observed.boot credentials a b flash) ⟨rfl, False.elim, rfl, rfl⟩ events

/-! ## A run -/

/-- The handler subscribes, the connection comes up, and the broker sends the command that resets the wind lock. -/
def resets : List Device.Event :=
  List.replicate 4 .handle ++ [.wake, .step .opened, .step (.accept 512), .step (.data [0x20, 2, 0, 0]), .step .pending] ++
    (List.replicate 3 [.step .pending, .step (.accept 512)]).flatten ++
    [.step .pending, .step .pending, .step .pending, .wake, .step (.data InboundAux.resetBytes), .step .pending, .step (.accept 512),
      .step .pending, .step .pending, .step .pending, .handle]

/-- The device of the installation in a run, with nothing in flash. -/
def observed (events : List Device.Event) : Observed := Observed.after none (settingsOf leafA 0) (settingsOf leafB 0) none events

end CommandsAux

open CommandsAux

/-- Commands arrive exactly once and in order: in every run of the device, the commands of the broker that were executed since boot are those
of the messages that the handler has taken, and the messages it has taken, those that wait for it and the one that is to be passed on next are
those that were passed on on earlier connections and those of the first packets received on this one. When the MQTT task and the handler
wait for more, every command of every complete packet was executed. -/
theorem commands_executed (credentials : Option (String × Bytes)) (a b : MotorSettings) (flash : Option GateState)
    (events : List Device.Event) :
    let o := Observed.after credentials a b flash events
    o.executed = o.device.handled.filterMap IncomingMessage.command ∧
      (o.device.mqtt.place.Online →
        (∃ n, o.device.handled ++ o.device.mqtt.incoming ++ o.device.mqtt.place.inHand =
          o.earlier ++ ((packetsIn o.inbound.received).take n).filterMap messageIn) ∧
        (o.device.mqtt.place = .polling → o.device.mqtt.running = false → o.device.mqtt.incoming = [] →
          o.executed = (o.earlier ++ (packetsIn o.inbound.received).filterMap messageIn).filterMap IncomingMessage.command)) := by
  intro o
  obtain ⟨hmqtt, hknown, hqueued, hexecuted⟩ := served_after credentials a b flash events
  refine ⟨hexecuted, fun honline => ?_⟩
  rw [← hmqtt] at honline
  obtain ⟨taken, hr⟩ := hknown honline
  have hmessages := hr.messages
  rw [hmqtt] at hmessages
  refine ⟨⟨taken.length, ?_⟩, fun hplace hwaits hempty => ?_⟩
  · have hfirst : taken = (packetsIn o.inbound.received).take taken.length := List.prefix_iff_eq_take.mp hr.stream.prefix_split
    rw [hqueued, List.append_assoc, hmessages, ← hfirst]
  · have hall : packetsIn o.inbound.received = taken := hr.all (by rw [hmqtt]; exact hplace) (by rw [hmqtt]; exact hwaits)
    rw [hempty, List.append_nil] at hqueued
    rw [hplace] at hmessages
    rw [hexecuted, hqueued, hall, ← hmessages]
    exact congrArg (List.filterMap IncomingMessage.command) (congrArg _ (List.append_nil _).symm)

/-- The wind lock is reset. -/
theorem commands_executed_reset : (observed resets).executed = [.resetWindLock] := by
  have hwaits : (observed resets).device.mqtt.place = .polling ∧ (observed resets).device.mqtt.running = false ∧
      (observed resets).device.mqtt.incoming = [] := by decide +kernel
  have honline : (observed resets).device.mqtt.place.Online := by
    rw [hwaits.1]
    trivial
  have hcommands := commands_executed none (settingsOf leafA 0) (settingsOf leafB 0) none resets
  have hexecuted := (hcommands.2 honline).2 hwaits.1 hwaits.2.1 hwaits.2.2
  exact hexecuted.trans (by decide +kernel)

end GateLink
