import GateLink.Mqtt.Steps

/-!
# What is published after a reconnect

The state messages converge on every connection: once its CONNECTED was consumed and everything that was queued is sent, what was sent
last on each state topic is what was published last (`state_converges`). The queue drops its oldest messages only, and a call of
`publish_state` fits in it, so that the messages of the latest call stay the last ones, from the queue to what was sent.

The discovery configs do not: the queue is shared, and state messages that come in while a config waits in it can push it out
(`config_dropped`). They all are sent in the runs in which no call of `publish_state` does so (`configs_sent`).
-/

namespace GateLink

open Machine

namespace Mqtt

/-- The messages sent on this connection, the oldest first. -/
def sentMessages (s : Mqtt) : List OutgoingMessage := s.sent.filterMap Packet.message

/-- The connection is in its loop, its CONNECTED was consumed and answered, and everything that was queued is sent. -/
def Drained (s : Mqtt) : Prop :=
  s.place.InLoop ∧ s.connected = none ∧ s.outgoing = [] ∧ ∀ p rest, s.place ≠ .writing (.publish p) rest

/-- On a connection that has answered its CONNECTED, no call of `publish_state` pushes a discovery config out of the queue. -/
def Spares (s : Mqtt) : Event → Prop
  | .publishState c => ¬s.running → s.place.InLoop → s.connected = none →
      ∀ m ∈ s.outgoing.take (s.outgoing.length + (stateUpdate c).length - outgoingDepth), m ∉ discoveryConfigs
  | _ => True

end Mqtt

namespace OutgoingAux

open Mqtt

/-- The messages from the first one sent on the connection to the last one queued. -/
def messages (v : View) : List OutgoingMessage := (v.sent ++ v.place.inFlight).filterMap Packet.message ++ v.outgoing

/-- A poll of the client that is dropped publishes nothing. -/
theorem messages_polls {v : View} (h : v.place.Polls) : messages v = v.sent.filterMap Packet.message ++ v.outgoing := by
  unfold messages
  rw [List.filterMap_append, h.inFlight.1, List.append_nil]

/-- What an event does to the messages of a connection in its loop. -/
inductive Effect (v : View) (e : Mqtt.Event) (v' : View) : Prop
  | keeps (hplace : v.place.InLoop) (hmessages : messages v' = messages v) (hconnected : v'.connected = v.connected)
      (hpublished : v'.published = v.published)
  | signals (hconnected : v'.connected = some ())
  | publishes (c : Controls) (he : e = .publishState c) (hv : v' = { v.enqueue (stateUpdate c) with published := some c })
  | discovers (c : Controls)
      (hv : v' = { v.enqueue (discoveryConfigs ++ stateUpdate c) with connected := none, published := some c })

/-- Every event of a connection in its loop has one of these effects. -/
theorem effect {v v' : View} {e : Mqtt.Event} (h : Moves v e v') (hloop : v'.place.InLoop) : Effect v e v' := by
  cases h with
  | ends hplace => exact absurd hloop.online hplace
  | opens | connects | resubscribes => exact hloop.elim
  | signals => exact .signals rfl
  | turns hplace hnext =>
    refine .keeps hplace.polls.inLoop ?_ rfl rfl
    rw [messages_polls hplace.polls, messages_polls hnext.polls]
  | @polls io w bytes hplace hw he =>
    refine .keeps hplace.polls.inLoop ?_ rfl rfl
    have hwriting : (Place.writing w bytes).Polls := hw
    rw [messages_polls hplace.polls, messages_polls hwriting]
  | publishes hplace hout hp he =>
    refine .keeps hplace.polls.inLoop ?_ rfl rfl
    rw [messages_polls hplace.polls, hout]
    simp [messages, Place.inFlight, Writing.packet, hp]
  | subscribes hplace hqueue hp he =>
    refine .keeps hplace.polls.inLoop ?_ rfl rfl
    rw [messages_polls hplace.polls]
    simp [messages, Place.inFlight, Writing.packet, Packet.message]
  | @accepts io w rest n hplace hn =>
    refine .keeps ?_ ?_ rfl rfl
    · rw [hplace]
      cases w <;> exact hloop
    · simp [messages, hplace, Place.inFlight]
  | @completes io w rest hplace =>
    refine .keeps ?_ ?_ rfl rfl
    · rw [hplace]
      cases w <;> trivial
    · cases w <;> simp [messages, hplace, Place.inFlight, Writing.next]
  | publishState c => exact .publishes c rfl rfl
  | discovery c => exact .discovers c rfl
  | register | registerWaits | resume => exact .keeps hloop rfl rfl rfl

/-- No event leaves more in the queue than it has space for. -/
theorem outgoing_le {v v' : View} {e : Mqtt.Event} (h : Moves v e v') (hle : v.outgoing.length ≤ outgoingDepth) :
    v'.outgoing.length ≤ outgoingDepth := by
  have hforce (xs : List OutgoingMessage) : (xs.foldl (Queue.force outgoingDepth) v.outgoing).length ≤ outgoingDepth :=
    Queue.length_foldl_force_le (by decide) hle xs
  cases h with
  | ends hplace hout => exact Nat.le_trans hout hle
  | signals => exact Nat.zero_le _
  | publishes hplace hout =>
    rw [hout, List.length_cons] at hle
    exact Nat.le_of_succ_le hle
  | publishState | discovery => exact hforce _
  | opens | connects | resubscribes | turns | polls | subscribes | accepts | completes | register | registerWaits | resume => exact hle

/-- What is queued last is what comes last of all messages. -/
theorem suffix_messages {v : View} {xs : List OutgoingMessage} (h : xs <:+ v.outgoing) : xs <:+ messages v :=
  h.trans (List.suffix_append _ _)

/-! ## The state messages -/

/-- The messages of the latest call of `publish_state` are the last ones, or CONNECTED is still to be answered. -/
def Fresh (v : View) : Prop :=
  v.outgoing.length ≤ outgoingDepth ∧
    (v.place.InLoop → v.connected = some () ∨ ∃ c, v.published = some c ∧ stateUpdate c <:+ messages v)

/-- The messages of one call of `publish_state` fit into the queue. -/
theorem stateUpdate_fits (c : Controls) : (stateUpdate c).length ≤ outgoingDepth := Nat.le_of_ble_eq_true rfl

/-- The messages of a full republish fit into the queue. -/
theorem republish_fits (c : Controls) : (discoveryConfigs ++ stateUpdate c).length ≤ outgoingDepth := Nat.le_of_ble_eq_true rfl

/-- Every event of the connection keeps the latest state last. -/
theorem fresh_moves (v : View) (e : Mqtt.Event) (v' : View) (hmove : Moves v e v') (h : Fresh v) : Fresh v' := by
  refine ⟨outgoing_le hmove h.1, fun hloop => ?_⟩
  cases effect hmove hloop with
  | keeps hplace hmessages hconnected hpublished =>
    rw [hmessages, hconnected, hpublished]
    exact h.2 hplace
  | signals hconnected => exact Or.inl hconnected
  | publishes c _ hv =>
    subst hv
    exact Or.inr ⟨c, rfl, suffix_messages (Queue.suffix_foldl_force (by decide) h.1 (stateUpdate_fits c))⟩
  | discovers c hv =>
    subst hv
    have hboth : discoveryConfigs ++ stateUpdate c <:+ (v.enqueue (discoveryConfigs ++ stateUpdate c)).outgoing :=
      Queue.suffix_foldl_force (by decide) h.1 (republish_fits c)
    exact Or.inr ⟨c, rfl, suffix_messages ((List.suffix_append _ _).trans hboth)⟩

/-- With everything sent, all messages are those sent. -/
theorem messages_drained {s : Mqtt} (h : s.Drained) : messages s.view = s.sentMessages := by
  obtain ⟨hloop, -, hout, hnone⟩ := h
  have hquiet : (s.place.inFlight).filterMap Packet.message = [] := by
    cases hp : s.place with
    | writing w rest =>
      cases w with
      | publish p => exact absurd hp (hnone p rest)
      | connect | resubscribe | ping | ack | subscribe => rfl
    | offline | connAck | resubscribing | looping | polling | delivering | panicked => rfl
  show (s.sent ++ s.place.inFlight).filterMap Packet.message ++ s.outgoing = _
  rw [List.filterMap_append, hquiet, hout, List.append_nil, List.append_nil]
  rfl

/-- The topics of the state messages are different, so that the last of them on a topic is the last one on it of all. -/
theorem getLast_of_suffix {c : Controls} {sent : List OutgoingMessage} (h : stateUpdate c <:+ sent) {m : String × String}
    (hm : m ∈ stateMessages c) : (sent.filter (·.topic = m.1)).getLast? = some (retained m) := by
  obtain ⟨before, rfl⟩ := h
  have hlast : ((stateUpdate c).filter (·.topic = m.1)) = [retained m] := by
    simp only [stateMessages, messagesOf, List.mem_cons, List.not_mem_nil, or_false] at hm
    obtain rfl | rfl | rfl := hm <;> simp [stateUpdate, stateMessages, messagesOf, retained, coverStateTopic, windStateTopic,
      barrierBypassStateTopic]
  rw [List.filter_append, hlast, List.getLast?_append]
  rfl

/-! ## The discovery configs -/

/-- Every discovery config is among the messages, or CONNECTED is still to be answered. -/
def Complete (v : View) : Prop :=
  v.outgoing.length ≤ outgoingDepth ∧
    (v.place.InLoop → v.connected = some () ∨ ∀ m ∈ discoveryConfigs, m ∈ messages v)

/-- What is in the queue is pushed out of it only if it is among the oldest. -/
theorem mem_messages_enqueue {v : View} {xs : List OutgoingMessage} {m : OutgoingMessage} (hle : v.outgoing.length ≤ outgoingDepth)
    (hm : m ∈ messages v) (hkept : m ∉ v.outgoing.take (v.outgoing.length + xs.length - outgoingDepth)) :
    m ∈ messages (v.enqueue xs) := by
  rcases List.mem_append.mp hm with hsent | hqueued
  · exact List.mem_append_left _ hsent
  · exact List.mem_append_right _ (Queue.mem_foldl_force (by decide) hle hqueued hkept)

/-- An event that spares the configs loses none. -/
theorem complete_next (s : Mqtt) (e : Mqtt.Event) (he : s.Spares e) (h : Complete s.view) : Complete (s.next e).view := by
  rcases next_moves s e with heq | hmove
  · rw [heq]
    exact h
  · refine ⟨outgoing_le hmove h.1, fun hloop => ?_⟩
    cases effect hmove hloop with
    | keeps hplace hmessages hconnected _ =>
      rw [hmessages, hconnected]
      exact h.2 hplace
    | signals hconnected => exact Or.inl hconnected
    | publishes c hevent hv =>
      subst hevent
      by_cases hrunning : s.running
      · have hnothing : s.next (.publishState c) = s := if_pos (Or.inl hrunning)
        rw [hnothing] at hloop ⊢
        exact h.2 hloop
      · rw [hv] at hloop ⊢
        refine (h.2 hloop).elim Or.inl fun hall => ?_
        cases hconnected : s.connected with
        | some => exact Or.inl hconnected
        | none =>
          refine Or.inr fun m hm => ?_
          have hkept : m ∈ messages (s.view.enqueue (stateUpdate c)) :=
            mem_messages_enqueue h.1 (hall m hm) fun hpushed => he hrunning hloop hconnected m hpushed hm
          exact hkept
    | discovers c hv =>
      rw [hv]
      have hboth : discoveryConfigs ++ stateUpdate c <:+ (s.view.enqueue (discoveryConfigs ++ stateUpdate c)).outgoing :=
        Queue.suffix_foldl_force (by decide) h.1 (republish_fits c)
      exact Or.inr fun m hm => (suffix_messages hboth).subset (List.mem_append_left _ hm)

/-! ## Runs -/

/-- A connection that waits for the broker, with nothing left to do. -/
theorem drained_polling {s : Mqtt} (h : s.place = .polling ∧ s.connected = none ∧ s.outgoing = []) : s.Drained := by
  obtain ⟨hplace, hconnected, hout⟩ := h
  refine ⟨?_, hconnected, hout, ?_⟩
  · rw [hplace]
    trivial
  · rw [hplace]
    nofun

/-- The socket accepts the message being sent, and the task takes the next one. -/
def sends (messages : Nat) : List Mqtt.Event :=
  (List.replicate messages [.step (.accept 512), .step .pending, .step .pending]).flatten

/-- The discovery task republishes everything, and all of it is sent. -/
def republished : List Mqtt.Event := comesUp ++ [.discovery Controls.new, .wake, .step .pending] ++ sends 8

/-- While the first config is being sent, the gate publishes its state four times. -/
def crowded : List Mqtt.Event :=
  comesUp ++ [.discovery Controls.new, .wake, .step .pending, .step .pending] ++ List.replicate 4 (.publishState Controls.new) ++ [.wake] ++
    sends 17

/-- After the republish everything is sent. -/
theorem republished_drained : (Mqtt.after none republished).Drained := drained_polling (by decide +kernel)

/-- After the four updates everything that was left in the queue is sent. -/
theorem crowded_drained : (Mqtt.after none crowded).Drained := drained_polling (by decide +kernel)

end OutgoingAux

open OutgoingAux Mqtt

/-- Retained state converges: on every connection, once its CONNECTED was consumed and answered and everything that was queued is sent,
the last message sent on each state topic is the one of the latest call of `publish_state`. -/
theorem state_converges (credentials : Option (String × Bytes)) (events : List Mqtt.Event) :
    let s := Mqtt.after credentials events
    s.Drained → ∃ c, s.published = some c ∧
      ∀ m ∈ stateMessages c, (s.sentMessages.filter (·.topic = m.1)).getLast? = some (Mqtt.retained m) := by
  intro s hdrained
  have hfresh : Fresh s.view := Mqtt.after_rule fresh_moves ⟨Nat.zero_le _, False.elim⟩ events
  rcases hfresh.2 hdrained.1 with hsome | ⟨c, hpublished, hsuffix⟩
  · cases hdrained.2.1.symm.trans hsome
  · rw [messages_drained hdrained] at hsuffix
    exact ⟨c, hpublished, fun m hm => getLast_of_suffix hsuffix hm⟩

/-- The connection comes up, and everything is republished. -/
theorem state_converges_republished :
    let s := Mqtt.after none republished
    ∃ c, s.published = some c ∧
      ∀ m ∈ stateMessages c, (s.sentMessages.filter (·.topic = m.1)).getLast? = some (Mqtt.retained m) :=
  state_converges none republished republished_drained

/-- The discovery configs are sent, in every run in which no call of `publish_state` pushes one of them out of the queue: once CONNECTED was
consumed and answered and everything that was queued is sent, every config was sent on this connection. -/
theorem configs_sent (credentials : Option (String × Bytes)) (events : List Mqtt.Event)
    (hspares : Allowed Mqtt.next Mqtt.Spares (Mqtt.boot credentials) events) :
    let s := Mqtt.after credentials events
    s.Drained → ∀ m ∈ discoveryConfigs, m ∈ s.sentMessages := by
  intro s hdrained m hm
  have hcomplete : Complete s.view :=
    run_invariant (P := fun s : Mqtt => Complete s.view) complete_next ⟨Nat.zero_le _, False.elim⟩ hspares
  rcases hcomplete.2 hdrained.1 with hsome | hall
  · cases hdrained.2.1.symm.trans hsome
  · rw [← messages_drained hdrained]
    exact hall m hm

/-- Four updates of the state while the first config is being sent push three of the others out of the queue. -/
theorem config_dropped :
    let s := Mqtt.after none crowded
    s.Drained ∧ ∃ m ∈ discoveryConfigs, m ∉ s.sentMessages :=
  ⟨crowded_drained, retained (windConfigTopic, windConfig cargoPkgVersion), by decide +kernel, by decide +kernel⟩

/-- Nothing comes in between, and the config that is dropped above is sent. -/
theorem configs_sent_republished :
    Mqtt.retained (windConfigTopic, windConfig cargoPkgVersion) ∈ (Mqtt.after none republished).sentMessages := by
  have hnone : ∀ e ∈ republished, ∀ c, e ≠ .publishState c := by
    simp [republished, comesUp, sends]
  have hspares : Allowed Mqtt.next Mqtt.Spares (Mqtt.boot none) republished := by
    refine (allowed_of_forall hnone _).mono fun s e he => ?_
    cases e with
    | publishState c => exact absurd rfl (he c)
    | sleep | wake | step | discovery | register | resume | receive => trivial
  exact configs_sent none republished hspares republished_drained _ (by decide +kernel)

end GateLink
