import GateLink.Lemmas.Device
import GateLink.Theorems.Announced
import GateLink.Theorems.ReadBack

/-!
# The broker mirrors the gate

Home Assistant sees the gate through the retained state messages at the broker. The gate publishes its state at each notify and with each
command for the bypass, the discovery task publishes it again on every connection, and between them and the broker are a queue that drops
messages, a connection that comes and goes, and a byte stream. Once all of these have come to rest, the broker has the state that the gate
is in (`broker_mirrors`): what was published last is what the gate has announced last (`Mirrored`), at the level of the whole device.
-/

namespace GateLink

open Machine

/-- What is noted of a trip of the wind guard, once the gate task runs. -/
def FirmwareTask.noteTrip (g : FirmwareTask) (tripped : Bool) (e : Firmware.Event) : Bool :=
  match g with
  | .spawned _ _ _ _ => false
  | .running f => f.noteTrip tripped e

namespace Device

/-- The action that an event is for the gate, if it is one. -/
def action (d : Device) : Event → Option Action
  | .sampleButton button low => d.sampleAction button low
  | .readBarrier barrier low => barrier.readAction (d.lastActive barrier) low
  | .handle => ((d.handler.takes d.mqtt).bind IncomingMessage.command).map Action.execute
  | _ => none

/-- Notes whether the wind guard has tripped and engaged the wind lock since the gate was polled last, and neither has the lock been reset
since nor has the state been published, with a command for the bypass or on a connection. -/
def noteTrip (d : Device) (tripped : Bool) (e : Event) : Bool :=
  if d.Idle then
    match e with
    | .pollGate sleep lag => d.gate.noteTrip tripped (.poll sleep lag)
    | .discover => if d.mqtt.connected = some () then false else tripped
    | _ => (d.action e).elim tripped fun a => d.gate.noteTrip tripped (.act a)
  else tripped

/-- A poll of the gate task overlooks no trip of the wind guard. -/
def Heeds (s : Device × Bool) : Event → Prop
  | .pollGate sleep lag => s.1.Idle → ∀ f, s.1.gate = .running f → Firmware.Heeds (f, s.2) (.poll sleep lag)
  | _ => True

/-- No poll of the client is dropped after a part of the packet that it sends was accepted. -/
def KeepsWhole (d : Device) : Event → Prop
  | .step io => d.mqtt.KeepsWhole (.step io)
  | _ => True

/-- A run decides whether its packets are kept whole. -/
instance (d : Device) : (e : Event) → Decidable (d.KeepsWhole e)
  | .step io => inferInstanceAs (Decidable (d.mqtt.KeepsWhole (.step io)))
  | .pollGate _ _ | .locked | .saveReturns _ | .sampleButton _ _ | .readBarrier _ _ | .handle | .discover | .sleep _ | .wake => isTrue trivial

end Device

namespace MirrorAux

open Device

/-! ## What is published last -/

/-- What was published last, after this was published. -/
def latest (published : Option Controls) (states : List Controls) : Option Controls := states.getLast?.or published

/-- States published one after the other: the last one counts. -/
theorem run_publishState {s : Mqtt} (hrunning : s.running = false) (hplace : s.place ≠ .panicked) (states : List Controls) :
    (run Mqtt.next s (states.map .publishState)).published = latest s.published states := by
  induction states generalizing s with
  | nil => rfl
  | cons c states ih =>
    have hnext : s.next (.publishState c) = s.publishState c := if_neg fun h => h.elim (by simp [hrunning]) hplace
    rw [List.map_cons, run_cons, hnext, ih (s := s.publishState c) hrunning hplace]
    unfold latest
    rw [List.getLast?_cons]
    cases states.getLast? <;> rfl

/-- The events with which the state is published. -/
def Publishes : Mqtt.Event → Prop
  | .publishState _ | .discovery _ => True
  | _ => False

/-- No other event of the connection changes what was published last. -/
theorem moves_published {v v' : Mqtt.View} {e : Mqtt.Event} (h : Mqtt.Moves v e v') (he : ¬Publishes e) : v'.published = v.published := by
  cases h with
  | publishState | discovery => exact absurd trivial he
  | ends | opens | connects | resubscribes | signals | turns | polls | publishes | subscribes | accepts | completes | register
  | registerWaits | resume => rfl

/-- An event that does not publish leaves what was published last. -/
theorem next_published (s : Mqtt) {e : Mqtt.Event} (he : ¬Publishes e) : (s.next e).published = s.published := by
  rcases Mqtt.next_moves s e with hsame | hmove
  · exact congrArg Mqtt.View.published hsame
  · exact moves_published hmove he

/-- A run of such events leaves what was published last. -/
theorem run_published {s : Mqtt} {events : List Mqtt.Event} (he : ∀ e ∈ events, ¬Publishes e) :
    (run Mqtt.next s events).published = s.published := by
  induction events generalizing s with
  | nil => rfl
  | cons e events ih =>
    obtain ⟨hfirst, hrest⟩ := List.forall_mem_cons.mp he
    rw [run_cons, ih hrest, next_published s hfirst]

/-- The latest notify between two traces is the one whose state is announced. -/
theorem announce_eq (announced : List (String × String)) (old new : List Entry) :
    Firmware.announce announced (new.take (new.length - old.length)) = (notifies old new).getLast?.elim announced stateMessages := by
  unfold Firmware.announce notifies
  rw [List.getLast?_map, List.getLast?_reverse, List.head?_filter]
  cases List.find? _ _ <;> rfl

/-! ## The gate and what is published -/

/-- What is published of the gate: the firmware has announced what was published last, and what it knows of the gate, with the trip that is
noted. -/
structure Mirrored (f : Firmware) (published : Option Controls) (tripped : Bool) : Prop where
  kept : AnnouncedAux.Kept f tripped
  published : ∃ c, published = some c ∧ stateMessages c = f.announced

/-- The firmware has announced what it has published. -/
theorem mirrored_latest {f f' : Firmware} {published : Option Controls} {states : List Controls} {tripped tripped' : Bool}
    (h : Mirrored f published tripped) (hkept : AnnouncedAux.Kept f' tripped')
    (hannounced : f'.announced = states.getLast?.elim f.announced stateMessages) : Mirrored f' (latest published states) tripped' := by
  refine ⟨hkept, ?_⟩
  unfold latest
  rw [hannounced]
  cases states.getLast? with
  | none => exact h.published
  | some c => exact ⟨c, rfl, rfl⟩

/-- At boot, the new gate notifies once. -/
theorem mirrored_boot (early : List Action) (a b : MotorSettings) (flash : Option GateState) (published : Option Controls) :
    Mirrored (Firmware.boot early a b flash)
      (latest published (notifies [] (Firmware.boot early a b flash).task.gate.board.trace)) false := by
  have hnotifies : notifies [] (Firmware.boot early a b flash).task.gate.board.trace = [(Firmware.boot early a b flash).controls] := by
    unfold Firmware.boot
    simp only
    generalize (Firmware.loaded flash).windLocked = locked
    cases locked <;> rfl
  rw [hnotifies]
  exact ⟨AnnouncedAux.kept_of_told rfl, _, rfl, rfl⟩

/-- A poll announces the state of the last of its notifies. -/
theorem poll_announced (f : Firmware) (sleep : Duration) (lag : Nat → Duration) :
    (f.poll sleep lag).announced =
      (notifies f.task.gate.board.trace (f.poll sleep lag).task.gate.board.trace).getLast?.elim f.announced stateMessages := by
  rw [← announce_eq]
  unfold Firmware.poll
  split
  · unfold Firmware.pollStep
    simp only
    split
    · split <;> rfl
    · rfl
  · rw [Nat.sub_self, List.take_zero]
    rfl

/-- An action announces what it publishes. -/
theorem act_announced (f : Firmware) (a : Action) :
    (f.act a).announced = (Device.published (f.act a).controls a).getLast?.elim f.announced stateMessages := by
  cases a with
  | input i => rfl
  | execute command => cases command <;> rfl

/-- The gate task is spawned with these arguments, or it runs and is mirrored. -/
def Mirrors (a b : MotorSettings) (flash : Option GateState) (g : FirmwareTask) (published : Option Controls) (tripped : Bool) : Prop :=
  Runs a b flash (fun f => Mirrored f published tripped) g

section

variable {a b : MotorSettings} {flash : Option GateState} {g : FirmwareTask} {published : Option Controls} {tripped : Bool}

/-- An action publishes what it announces. -/
theorem mirrors_act (h : Mirrors a b flash g published tripped) (x : Option Action) :
    Mirrors a b flash (actedGate g x) (latest published (actPublished g x))
      (x.elim tripped fun x => g.noteTrip tripped (.act x)) := by
  cases x with
  | none => exact h
  | some x =>
    cases g with
    | spawned => exact h
    | running f => exact mirrored_latest h (AnnouncedAux.kept_act h.kept x) (act_announced f x)

/-- A poll that overlooks no trip publishes what it announces, the first one included. -/
theorem mirrors_poll (sleep : Duration) (lag : Nat → Duration)
    (hheeds : ∀ f, g = .running f → Firmware.Heeds (f, tripped) (.poll sleep lag)) (h : Mirrors a b flash g published tripped) :
    Mirrors a b flash (.running (polled g sleep lag).1) (latest published (pollPublished g sleep lag))
      (g.noteTrip tripped (.poll sleep lag)) := by
  cases g with
  | spawned a' b' flash' early =>
    obtain ⟨rfl, rfl, rfl⟩ := h
    exact mirrored_boot early a' b' flash' published
  | running f =>
    exact mirrored_latest h (AnnouncedAux.kept_poll h.kept (hheeds f rfl)) (poll_announced f sleep lag)

/-- What the gate task knows and has announced is left alone. -/
theorem mirrors_map {step : Firmware → Firmware} (hannounced : ∀ f, (step f).announced = f.announced)
    (hcontrols : ∀ f, (step f).controls = f.controls) (h : Mirrors a b flash g published tripped) :
    Mirrors a b flash (g.map step) published tripped := by
  refine runs_map (fun f hf => ⟨?_, ?_⟩) h
  · exact hf.kept.congr (hannounced f) (hcontrols f)
  · rw [hannounced]
    exact hf.published

end

/-- The discovery task publishes the state of the gate. -/
theorem discovery_published {s : Mqtt} (hrunning : s.running = false) (hplace : s.place ≠ .panicked) (c : Controls) :
    (s.next (.discovery c)).published = if s.connected = some () then some c else s.published := by
  have hnext : s.next (.discovery c) = s.discovery c := if_neg fun h => h.elim (by simp [hrunning]) hplace
  rw [hnext]
  unfold Mqtt.discovery
  cases s.connected with
  | none => rfl
  | some => rfl

/-- The discovery task publishes the state of the gate, if it answers a CONNECTED. -/
theorem mirrors_discover {a b : MotorSettings} {flash : Option GateState} {d : Device} {tripped : Bool}
    (h : Mirrors a b flash d.gate d.mqtt.published tripped) :
    Mirrors a b flash (d.gateNext .discover) (if d.mqtt.connected = some () then some d.controls else d.mqtt.published)
      (if d.mqtt.connected = some () then false else tripped) := by
  unfold gateNext Device.controls
  simp only
  split
  · cases hg : d.gate with
    | spawned =>
      rw [hg] at h
      exact h
    | running f => exact ⟨AnnouncedAux.kept_of_told rfl, f.controls, rfl, rfl⟩
  · exact h

/-- The handler of the messages publishes nothing by itself. -/
theorem handler_publishes (h : Handler) : ∀ e ∈ h.events, ¬Publishes e := by
  cases h with
  | subscribing rest => cases rest <;> simp [Handler.events, Publishes]
  | sending | receiving => simp [Handler.events, Publishes]

/-- What the handler does to the queues lets the connection sleep on. -/
theorem handler_idle {s : Mqtt} (hrunning : s.running = false) (hplace : s.place ≠ .panicked) (h : Handler) :
    (h.acts s).running = false ∧ (h.acts s).place ≠ .panicked := by
  have hbetween {s' : Mqtt} (hs : s'.running = false ∧ s'.place = s.place) :
      (s.between s').running = false ∧ (s.between s').place ≠ .panicked := by
    unfold Mqtt.between
    split
    · exact ⟨hrunning, hplace⟩
    · exact ⟨hs.1, by rw [hs.2]; exact hplace⟩
  cases h with
  | subscribing rest =>
    cases rest with
    | nil => exact ⟨hrunning, hplace⟩
    | cons topic rest =>
      refine hbetween ?_
      unfold Mqtt.register
      simp only
      split <;> exact ⟨hrunning, rfl⟩
  | sending rest =>
    refine hbetween ?_
    unfold Mqtt.resume
    split
    · split <;> exact ⟨hrunning, rfl⟩
    · exact ⟨hrunning, rfl⟩
  | receiving => exact hbetween ⟨hrunning, rfl⟩

/-- Every event that overlooks no trip keeps the device mirrored. -/
theorem mirrors_next {a b : MotorSettings} {flash : Option GateState} (d : Device) (tripped : Bool) (e : Device.Event)
    (he : Device.Heeds (d, tripped) e) (h : Mirrors a b flash d.gate d.mqtt.published tripped) :
    Mirrors a b flash (d.next e).gate (d.next e).mqtt.published (d.noteTrip tripped e) := by
  rw [gate_next, mqtt_next]
  unfold Device.noteTrip
  by_cases hidle : d.Idle
  · obtain ⟨hrunning, hplace, -⟩ := id hidle
    rw [if_pos hidle, if_pos hidle]
    cases e with
    | pollGate sleep lag =>
      rw [mqttEvents_idle hidle (by simp) (by simp), idleEvents, run_publishState hrunning hplace]
      exact mirrors_poll sleep lag (he hidle) h
    | locked =>
      rw [mqttEvents_idle hidle (by simp) (by simp)]
      exact mirrors_map (fun f => f.locked_frame.2) (fun f => congrArg (·.gate.controls) f.locked_frame.1) h
    | saveReturns result =>
      rw [mqttEvents_idle hidle (by simp) (by simp)]
      exact mirrors_map (fun f => (f.saveReturns_frame result).2) (fun f => congrArg (·.gate.controls) (f.saveReturns_frame result).1) h
    | sampleButton | readBarrier =>
      rw [mqttEvents_idle hidle (by simp) (by simp), idleEvents, run_publishState hrunning hplace]
      exact mirrors_act h _
    | handle =>
      obtain ⟨hrunning', hplace'⟩ := handler_idle hrunning hplace d.handler
      rw [Handler.acts_eq] at hrunning' hplace'
      rw [mqttEvents_idle hidle (by simp) (by simp), idleEvents, run_append, run_publishState hrunning' hplace',
        run_published (handler_publishes d.handler)]
      exact mirrors_act h _
    | discover =>
      rw [mqttEvents_idle hidle (by simp) (by simp), idleEvents, run_cons, run_nil, discovery_published hrunning hplace]
      exact mirrors_discover h
    | sleep | wake | step =>
      rw [run_published (by simp [mqttEvents, idleEvents, hidle, Publishes])]
      exact h
  · have hquiet : ∀ e' ∈ d.mqttEvents e, ¬Publishes e' := by
      cases e <;> simp [mqttEvents, hidle, Publishes]
    rw [if_neg hidle, if_neg hidle, run_published hquiet]
    exact h

/-- So it is mirrored in every run that overlooks none. -/
theorem mirrors_after {credentials : Option (String × Bytes)} {a b : MotorSettings} {flash : Option GateState} {events : List Device.Event}
    (hheeds : Allowed (noting Device.next Device.noteTrip) Device.Heeds (Device.boot credentials a b flash, false) events) :
    ∃ tripped, Mirrors a b flash (Device.after credentials a b flash events).gate (Device.after credentials a b flash events).mqtt.published
      tripped :=
  run_noting_invariant (P := fun (d : Device) tripped => Mirrors a b flash d.gate d.mqtt.published tripped) mirrors_next
    (s := Device.boot credentials a b flash) ⟨rfl, rfl, rfl⟩ hheeds

/-! ## The stream -/

/-- Only a step of the task can break a packet. -/
theorem keepsWhole_of_ne_step (s : Mqtt) {e : Mqtt.Event} (he : ∀ io, e ≠ .step io) : s.KeepsWhole e := by
  cases e with
  | step io => exact absurd rfl (he io)
  | sleep | wake | publishState | discovery | register | resume | receive => trivial

/-- A run of the device that keeps packets whole is one of the connection. -/
theorem keepsWhole_next (d : Device) (e : Device.Event) (he : d.KeepsWhole e) :
    Allowed Mqtt.next Mqtt.KeepsWhole d.mqtt (d.mqttEvents e) := by
  cases e with
  | step io => exact ⟨he, trivial⟩
  | pollGate | locked | saveReturns | sampleButton | readBarrier | handle | discover | sleep | wake =>
    exact (allowed_of_forall (d.mqttEvents_ne_step (by simp)) d.mqtt).mono fun s _ => keepsWhole_of_ne_step s

/-! ## A run -/

/-- The socket accepts the message being sent, and the task takes the next one. -/
def sends (messages : Nat) : List Device.Event :=
  (List.replicate messages [.step (.accept 512), .step .pending, .step .pending]).flatten

/-- The handler subscribes, the connection comes up and everything is republished; then the push button is pressed, and the gate opens. -/
def pressed : List Device.Event :=
  [.pollGate 0 steady, .pollGate 0 steady] ++ List.replicate 4 .handle ++
    [.wake, .step .opened, .step (.accept 512), .step (.data [0x20, 2, 0, 0]), .step .pending] ++
    (List.replicate 3 [.step .pending, .step (.accept 512)]).flatten ++
    [.step .pending, .step .pending, .step .pending, .discover, .wake, .step .pending] ++ sends 8 ++
    List.replicate 5 (.sampleButton .pushButton true) ++ [.pollGate 0 steady, .wake, .step .pending] ++ sends 3

/-- The device of the installation after a run, with nothing in flash. -/
def installed (events : List Device.Event) : Device := Device.after none (settingsOf leafA 0) (settingsOf leafB 0) none events

/-- The gate task runs, and has a property. -/
def Satisfies (P : Firmware → Prop) : FirmwareTask → Prop
  | .spawned _ _ _ _ => False
  | .running f => P f

/-- A run decides it. -/
instance decidableSatisfies (P : Firmware → Prop) [DecidablePred P] : (g : FirmwareTask) → Decidable (Satisfies P g)
  | .spawned _ _ _ _ => isFalse id
  | .running f => inferInstanceAs (Decidable (P f))

/-- Then the gate task runs. -/
theorem running_of_satisfies {P : Firmware → Prop} {g : FirmwareTask} (h : Satisfies P g) : ∃ f, g = .running f ∧ P f := by
  cases g with
  | spawned => exact h.elim
  | running f => exact ⟨f, rfl, h⟩

/-- A run in which no trip is noted overlooks none. -/
theorem heeds_of_untripped {d : Device} {events : List Device.Event}
    (h : Allowed (noting Device.next Device.noteTrip) (fun s _ => s.2 = false) (d, false) events) :
    Allowed (noting Device.next Device.noteTrip) Device.Heeds (d, false) events := by
  refine h.mono fun s e hs => ?_
  cases e with
  | pollGate sleep lag => exact fun _ f _ _ htripped => by cases hs.symm.trans htripped
  | locked | saveReturns | sampleButton | readBarrier | handle | discover | sleep | wake | step => trivial

end MirrorAux

open MirrorAux

/-- The broker mirrors the gate: in every run of the device in which no poll of the gate overlooks a trip of the wind guard, and no poll of
the client is dropped in the middle of a packet, whenever the gate is suspended with every signal taken and everything that was queued is
sent, what a broker has read from the connection ends, on each of the state topics, with the message for the state that the gate is in. -/
theorem broker_mirrors (credentials : Option (String × Bytes)) (a b : MotorSettings) (flash : Option GateState) (events : List Device.Event)
    (hheeds : Allowed (noting Device.next Device.noteTrip) Device.Heeds (Device.boot credentials a b flash, false) events)
    (hwhole : Allowed Device.next Device.KeepsWhole (Device.boot credentials a b flash) events) :
    let d := Device.after credentials a b flash events
    ∀ f, d.gate = .running f → f.Quiet → d.mqtt.Drained →
      ∃ packets tail, readPackets d.mqtt.stream.length d.mqtt.stream = (packets, tail) ∧
        ∀ m ∈ stateMessages f.controls,
          ((packets.filterMap Packet.message).filter (·.topic = m.1)).getLast? = some (Mqtt.retained m) := by
  intro d f hgate hquiet hdrained
  obtain ⟨tripped, hmirrors⟩ : ∃ tripped, Mirrors a b flash d.gate d.mqtt.published tripped := mirrors_after hheeds
  rw [hgate] at hmirrors
  obtain ⟨⟨hknown, -, -⟩, c, hc, hstate⟩ := hmirrors
  have hcurrent : stateMessages c = stateMessages f.controls := hstate.trans (hknown.exact hquiet.2.2.1 hquiet.2.2.2.2)
  -- the connection of the device is a connection in a run of its own
  obtain ⟨events', hevents', hrun⟩ : ∃ events', Allowed Mqtt.next Mqtt.KeepsWhole (Mqtt.boot credentials) events' ∧
      d.mqtt = Mqtt.after credentials events' :=
    ⟨_, allowed_part Device.mqtt_next keepsWhole_next hwhole, Device.mqtt_after credentials a b flash events⟩
  have hfresh : OutgoingAux.Fresh d.mqtt.view := by
    rw [hrun]
    exact Mqtt.after_rule OutgoingAux.fresh_moves ⟨Nat.zero_le _, False.elim⟩ events'
  have hread : ∃ tail, readPackets d.mqtt.stream.length d.mqtt.stream = (d.mqtt.sent, tail) := by
    have honline := hdrained.1.online
    rw [hrun] at honline ⊢
    have hcarries := ReadBackAux.carries_after hevents' honline
    obtain ⟨tail, htail, -⟩ := ReadBackAux.readPackets_carries hcarries fun p hp =>
      (ReadBackAux.numbered_after credentials events' honline).valid p (List.mem_append_left _ hp)
    exact ⟨tail, htail⟩
  obtain ⟨tail, htail⟩ := hread
  refine ⟨d.mqtt.sent, tail, htail, fun m hm => ?_⟩
  rcases hfresh.2 hdrained.1 with hsome | ⟨c', hpublished, hsuffix⟩
  · cases hdrained.2.1.symm.trans hsome
  · obtain rfl : c' = c := Option.some.inj (hpublished.symm.trans hc)
    rw [OutgoingAux.messages_drained hdrained] at hsuffix
    exact OutgoingAux.getLast_of_suffix hsuffix (hcurrent ▸ hm)

/-- The gate opens after a press of the button, and the broker has it opening. -/
theorem broker_mirrors_pressed :
    ∃ packets tail, readPackets (installed pressed).mqtt.stream.length (installed pressed).mqtt.stream = (packets, tail) ∧
      ((packets.filterMap Packet.message).filter (·.topic = coverStateTopic)).getLast? =
        some (Mqtt.retained (coverStateTopic, "opening")) := by
  have hdrained : (installed pressed).mqtt.Drained := OutgoingAux.drained_polling (by decide +kernel)
  obtain ⟨f, hgate, ⟨hstage, hwaits, hcommand, hbarrier, hreset⟩, hcover⟩ :=
    running_of_satisfies (P := fun f => (f.stage = .step ∧
      f.task.await = .moving ⟨.opening, .running (fromSecs 16), .waiting (fromSecs 3), true⟩ (fromSecs 3) true ∧
      f.controls.command = none ∧ f.controls.barrierChanged = none ∧ f.controls.windLockReset = none) ∧
      (coverStateTopic, "opening") ∈ stateMessages f.controls) (g := (installed pressed).gate) (by decide +kernel)
  have hquiet : f.Quiet := ⟨hstage, Or.inr ⟨_, _, _, hwaits⟩, hcommand, hbarrier, hreset⟩
  have hheeds : Allowed (noting Device.next Device.noteTrip) Device.Heeds
      (Device.boot none (settingsOf leafA 0) (settingsOf leafB 0) none, false) pressed := heeds_of_untripped (by decide +kernel)
  obtain ⟨packets, tail, hread, hlast⟩ :=
    broker_mirrors none (settingsOf leafA 0) (settingsOf leafB 0) none pressed hheeds (by decide +kernel) f hgate hquiet hdrained
  exact ⟨packets, tail, hread, hlast _ hcover⟩

end GateLink
