import GateLink.Mqtt.Connection

/-!
# What the MQTT connection can do

An abstract model of the connection: where the task stands, what was sent and written, the queues and what was registered, without the
receiving side, the timer and the clock. `Moves v v'` is one move of it, by the task or by the rest of the firmware, in any order; each
event of `Mqtt` is such a move or leaves all this alone (`next_moves`). An invariant of the connection is proved here, once for each
move.
-/

namespace GateLink

open Machine

/-- The message that a packet publishes. -/
def Packet.message : Packet → Option OutgoingMessage
  | .publish p => some { topic := p.topic, payload := p.payload, qos := p.qos, retain := p.retain }
  | _ => none

/-- The subscriptions that a packet asks for. -/
def Packet.subscriptions : Packet → List Subscription
  | .subscribe s => s.topics.map fun topic => { topic := topic.1, qos := topic.2 }
  | _ => []

/-- Where the task stands once its packet is out. -/
def Writing.next : Writing → Place
  | .connect _ => .connAck
  | .resubscribe _ rest => .resubscribing rest
  | .ping => .polling
  | .ack _ _ message => .delivering message
  | .publish _ | .subscribe _ => .looping

namespace Place

/-- There is a connection. -/
def Online : Place → Prop
  | .offline | .panicked => False
  | _ => True

/-- The connection has reached its loop. -/
def InLoop : Place → Prop
  | .looping | .polling | .delivering _ => True
  | .writing (.connect _) _ | .writing (.resubscribe _ _) _ => False
  | .writing _ _ => True
  | _ => False

/-- The connection is in its loop, between two packets or in a poll of the client. -/
def Polls : Place → Prop
  | .looping | .polling | .delivering _ => True
  | .writing w _ => w.inPoll = true
  | _ => False

/-- The packet in the middle of being sent. -/
def inFlight : Place → List Packet
  | .writing w _ => [w.packet]
  | _ => []

/-- In the loop, with no packet in the middle of being sent. -/
def Turning (p : Place) : Prop := p = .looping ∨ p = .polling ∨ ∃ message, p = .delivering message

/-- The task can go on to something else: nothing is being sent, or a poll of the client is, and it is pending. -/
def Leaves (p : Place) (io : Io) : Prop := p.Turning ∨ io = .pending ∧ ∃ w rest, p = .writing w rest ∧ w.inPoll = true

variable {p : Place} {io : Io}

theorem Turning.polls (h : p.Turning) : p.Polls := by
  obtain rfl | rfl | ⟨message, rfl⟩ := h <;> trivial

theorem Leaves.polls (h : p.Leaves io) : p.Polls := by
  obtain hturning | ⟨-, w, rest, rfl, hw⟩ := h
  · exact hturning.polls
  · exact hw

theorem Polls.inLoop (h : p.Polls) : p.InLoop := by
  cases p with
  | writing w rest =>
    cases w with
    | ping | ack => trivial
    | connect | resubscribe | publish | subscribe => cases h
  | looping | polling | delivering => trivial
  | offline | connAck | resubscribing | panicked => exact h

/-- A poll of the client publishes nothing and asks for nothing. -/
theorem Polls.inFlight (h : p.Polls) : p.inFlight.filterMap Packet.message = [] ∧ p.inFlight.flatMap Packet.subscriptions = [] := by
  cases p with
  | writing w rest =>
    cases w with
    | ping | ack => exact ⟨rfl, rfl⟩
    | connect | resubscribe | publish | subscribe => cases h
  | looping | polling | delivering => exact ⟨rfl, rfl⟩
  | offline | connAck | resubscribing | panicked => exact h.elim

theorem InLoop.online (h : p.InLoop) : p.Online := by
  cases p with
  | offline | panicked => exact h
  | writing | connAck | resubscribing | looping | polling | delivering => trivial

end Place

namespace Mqtt

/-- What is said of a connection without its receiving side. -/
structure View where
  place : Place
  subscriptions : List Subscription
  subQueue : List Subscription
  callers : List Subscription
  outgoing : List OutgoingMessage
  connected : Signal Unit
  sent : List Packet
  stream : Bytes
  published : Option Controls

def view (s : Mqtt) : View where
  place := s.place
  subscriptions := s.subscriptions
  subQueue := s.subQueue
  callers := s.callers
  outgoing := s.outgoing
  connected := s.connected
  sent := s.sent
  stream := s.stream
  published := s.published

/-- Messages are queued, the oldest ones making room for them. -/
def View.enqueue (v : View) (messages : List OutgoingMessage) : View :=
  { v with outgoing := messages.foldl (Queue.force outgoingDepth) v.outgoing }

/-- The packet asks for one subscription. -/
def Asks (p : Subscribe) (sub : Subscription) : Prop := p.topics = [(sub.topic, sub.qos)]

/-- One move of the connection, on an event. -/
inductive Moves (v : View) : Event → View → Prop
  /-- The connection ends, or does not come up. Its messages and subscriptions may be lost. -/
  | ends {io : Io} {place : Place} {sent : List Packet} {stream : Bytes} {subQueue : List Subscription} {outgoing : List OutgoingMessage}
      (hplace : ¬place.Online) (hout : outgoing.length ≤ v.outgoing.length) :
      Moves v (.step io) { v with place := place, sent := sent, stream := stream, subQueue := subQueue, outgoing := outgoing }
  | opens {io : Io} {c : Connect} {bytes : Bytes} (he : (Packet.connect c).encode = .ok bytes) :
      Moves v (.step io) { v with place := .writing (.connect c) bytes, sent := [], stream := [] }
  /-- The broker has accepted the connection. -/
  | connects {io : Io} (hplace : v.place = .connAck) : Moves v (.step io) { v with place := .resubscribing v.subscriptions, subQueue := [] }
  | resubscribes {io : Io} {sub : Subscription} {rest : List Subscription} {p : Subscribe} {bytes : Bytes}
      (hplace : v.place = .resubscribing (sub :: rest)) (hp : Asks p sub) (he : (Packet.subscribe p).encode = .ok bytes) :
      Moves v (.step io) { v with place := .writing (.resubscribe p rest) bytes }
  | signals {io : Io} (hplace : v.place = .resubscribing []) : Moves v (.step io) { v with place := .looping, outgoing := [], connected := some () }
  /-- The task goes around its loop. A poll of the client can be dropped here. -/
  | turns {io : Io} {place : Place} (hplace : v.place.Leaves io) (hnext : place.Turning) : Moves v (.step io) { v with place := place }
  /-- The poll of the client sends a packet of its own. -/
  | polls {io : Io} {w : Writing} {bytes : Bytes} (hplace : v.place.Turning) (hw : w.inPoll = true) (he : w.packet.encode = .ok bytes) :
      Moves v (.step io) { v with place := .writing w bytes }
  | publishes {io : Io} {m : OutgoingMessage} {rest : List OutgoingMessage} {p : Publish} {bytes : Bytes} (hplace : v.place.Leaves io)
      (hout : v.outgoing = m :: rest) (hp : (Packet.publish p).message = some m) (he : (Packet.publish p).encode = .ok bytes) :
      Moves v (.step io) { v with place := .writing (.publish p) bytes, outgoing := rest }
  | subscribes {io : Io} {sub : Subscription} {rest : List Subscription} {p : Subscribe} {bytes : Bytes} (hplace : v.place.Leaves io)
      (hqueue : v.subQueue = sub :: rest) (hp : Asks p sub) (he : (Packet.subscribe p).encode = .ok bytes) :
      Moves v (.step io) { v with place := .writing (.subscribe p) bytes, subQueue := rest }
  /-- The socket accepts a part of what is written. -/
  | accepts {io : Io} {w : Writing} {rest : Bytes} {n : Nat} (hplace : v.place = .writing w rest) (hn : rest.drop n ≠ []) :
      Moves v (.step io) { v with place := .writing w (rest.drop n), stream := v.stream ++ rest.take n }
  /-- A packet is out. -/
  | completes {io : Io} {w : Writing} {rest : Bytes} (hplace : v.place = .writing w rest) :
      Moves v (.step io) { v with place := w.next, stream := v.stream ++ rest, sent := v.sent ++ [w.packet] }
  | publishState (c : Controls) : Moves v (.publishState c) { v.enqueue (stateUpdate c) with published := some c }
  | discovery (c : Controls) (hconnected : v.connected = some ()) :
      Moves v (.discovery c) { v.enqueue (discoveryConfigs ++ stateUpdate c) with connected := none, published := some c }
  | register (sub : Subscription) :
      Moves v (.register sub) { v with subscriptions := v.subscriptions ++ [sub], subQueue := v.subQueue ++ [sub] }
  | registerWaits (sub : Subscription) :
      Moves v (.register sub) { v with subscriptions := v.subscriptions ++ [sub], callers := v.callers ++ [sub] }
  | resume {caller : Nat} {sub : Subscription} (hcaller : v.callers[caller]? = some sub) :
      Moves v (.resume caller) { v with subQueue := v.subQueue ++ [sub], callers := v.callers.eraseIdx caller }

/-- What an event comes to: one move, or nothing that is seen. -/
def Comes (v : View) (e : Event) (v' : View) : Prop := v' = v ∨ Moves v e v'

/-! ## The task makes these moves -/

section Task

variable {s : Mqtt} {io : Io}

theorem lose_moves : Moves s.view (.step io) s.lose.view := .ends id (Nat.le_refl _)

/-- What outlives a connection is the same in both. -/
def Outlives (v : View) (s : Mqtt) : Prop :=
  s.outgoing.length ≤ v.outgoing.length ∧ s.subscriptions = v.subscriptions ∧ s.callers = v.callers ∧ s.connected = v.connected ∧
    s.published = v.published

theorem ends_moves {v : View} (h : Outlives v s) {place : Place} (hplace : ¬place.Online) :
    Moves v (.step io) { s.view with place := place } := by
  obtain ⟨hout, hsubscriptions, hcallers, hconnected, hpublished⟩ := h
  have hmoves : Moves v (.step io)
      { v with place := place, sent := s.sent, stream := s.stream, subQueue := s.subQueue, outgoing := s.outgoing } := .ends hplace hout
  rw [← hsubscriptions, ← hcallers, ← hconnected, ← hpublished] at hmoves
  exact hmoves

/-- A packet that cannot be encoded ends the connection or the device. -/
theorem write_moves {v : View} {w : Writing} (h : Outlives v s)
    (hwrites : ∀ bytes, w.packet.encode = .ok bytes → Moves v (.step io) { s.view with place := .writing w bytes }) :
    Moves v (.step io) (s.write w).view := by
  unfold write
  split
  · rename_i bytes he
    exact hwrites bytes he
  · exact ends_moves h id
  · exact ends_moves h id

theorem sendPacket_moves {v : View} {w : Writing} (h : Outlives v s)
    (hwrites : ∀ bytes, w.packet.encode = .ok bytes → Moves v (.step io) { s.view with place := .writing w bytes }) :
    Moves v (.step io) (s.sendPacket w).view := by
  unfold sendPacket
  split
  · exact write_moves h hwrites
  · exact ends_moves h id

theorem openConnection_moves (s : Mqtt) : Moves s.view (.step io) s.openConnection.view :=
  write_moves ⟨Nat.le_refl _, rfl, rfl, rfl, rfl⟩ fun _ he => .opens he

theorem connectAnswered_moves (hplace : s.place = .connAck) (len : Nat) : Moves s.view (.step io) (s.connectAnswered len).view := by
  unfold connectAnswered
  split
  · exact .connects hplace
  · exact lose_moves
  · exact ends_moves ⟨Nat.le_refl _, rfl, rfl, rfl, rfl⟩ id

theorem resubscribe_moves {rest : List Subscription} (hplace : s.place = .resubscribing rest) :
    Moves s.view (.step io) (s.resubscribe rest).view := by
  cases rest with
  | nil => exact .signals hplace
  | cons sub rest =>
    exact sendPacket_moves (v := s.view) (s := s.takePacketId) ⟨Nat.le_refl _, rfl, rfl, rfl, rfl⟩ fun _ he => .resubscribes hplace rfl he

theorem publish_moves {m : OutgoingMessage} {rest : List OutgoingMessage} (hplace : s.place.Leaves io) (hout : s.outgoing = m :: rest) :
    Moves s.view (.step io) ({ s with outgoing := rest }.publish m).view := by
  have hlen : rest.length ≤ s.outgoing.length := by
    rw [hout]
    exact Nat.le_succ _
  have hwrites (packetId : Option Nat) (bytes : Bytes) (he : (Writing.publish (publishPacket m packetId)).packet.encode = .ok bytes) :
      Moves s.view (.step io) { s.view with place := .writing (.publish (publishPacket m packetId)) bytes, outgoing := rest } :=
    .publishes (v := s.view) (m := m) hplace hout rfl he
  unfold publish
  split
  · exact sendPacket_moves ⟨hlen, rfl, rfl, rfl, rfl⟩ (hwrites none)
  · exact sendPacket_moves ⟨hlen, rfl, rfl, rfl, rfl⟩ (hwrites _)

theorem subscribe_moves {sub : Subscription} {rest : List Subscription} (hplace : s.place.Leaves io) (hqueue : s.subQueue = sub :: rest) :
    Moves s.view (.step io) ({ s with subQueue := rest }.subscribe sub).view := by
  have hwrites (p : Subscribe) (hp : Asks p sub) (bytes : Bytes) (he : (Writing.subscribe p).packet.encode = .ok bytes) :
      Moves s.view (.step io) { s.view with place := .writing (.subscribe p) bytes, subQueue := rest } :=
    .subscribes (v := s.view) hplace hqueue hp he
  exact sendPacket_moves ⟨Nat.le_refl _, rfl, rfl, rfl, rfl⟩ (hwrites _ rfl)

theorem otherArms_moves (hplace : s.place.Leaves io) : Comes s.view (.step io) s.otherArms.view := by
  unfold otherArms
  split
  · rename_i hout
    exact Or.inr (publish_moves hplace hout)
  · rename_i hqueue
    exact Or.inr (subscribe_moves hplace hqueue)
  · split
    · exact Or.inr (.turns hplace (Or.inl rfl))
    · exact Or.inl rfl

theorem loop_moves (hplace : s.place = .looping) : Moves s.view (.step io) s.loop.view := by
  have hturning : s.place.Turning := Or.inl hplace
  unfold loop
  simp only
  split
  · exact lose_moves
  · split
    · exact sendPacket_moves (v := s.view) (s := { s with timer := s.now + keepAliveCheck, timerPolled := false })
        ⟨Nat.le_refl _, rfl, rfl, rfl, rfl⟩ fun _ he => .polls (w := .ping) hturning rfl he
    · exact .turns (Or.inl hturning) (Or.inr (Or.inl rfl))

theorem pollPacket_moves (hplace : s.place = .polling) (len : Nat) : Moves s.view (.step io) (s.pollPacket len).view := by
  have hturning : s.place.Turning := Or.inr (Or.inl hplace)
  have hdeliver (message : IncomingMessage) : Moves s.view (.step io) (s.deliver len message).view :=
    .turns (Or.inl hturning) (Or.inr (Or.inr ⟨message, rfl⟩))
  unfold pollPacket
  split
  · exact .turns (Or.inl hturning) (Or.inl rfl)
  · split
    · exact lose_moves
    · simp only
      split
      · exact sendPacket_moves ⟨Nat.le_refl _, rfl, rfl, rfl, rfl⟩ fun _ he => .polls hturning rfl he
      · exact hdeliver _

theorem nextPacket_moves {found : Mqtt → Nat → Mqtt} {waits : Mqtt → Mqtt} (hfound : ∀ len, Moves s.view (.step io) (found s len).view)
    (hwaits : Comes s.view (.step io) (waits s).view) : Comes s.view (.step io) (s.nextPacket io found waits).view := by
  unfold nextPacket
  split
  · exact Or.inr lose_moves
  · rename_i len _
    exact Or.inr (hfound len)
  · split
    · exact Or.inr lose_moves
    · unfold read
      split
      · exact Or.inr lose_moves
      · exact Or.inr lose_moves
      · exact Or.inl rfl
      · exact hwaits
      · exact Or.inl rfl

theorem written_view (s : Mqtt) (w : Writing) :
    (s.written w).view = { s.view with place := w.next, sent := s.sent ++ [w.packet] } := by
  cases w <;> rfl

theorem accept_moves {w : Writing} {rest : Bytes} (hplace : s.place = .writing w rest) (n : Nat) :
    Moves s.view (.step io) (s.accept w rest n).view := by
  unfold accept
  simp only
  split
  · rename_i hn
    have hall : rest.take n = rest := List.take_of_length_le (List.drop_eq_nil_iff.mp hn)
    rw [written_view, hall]
    exact .completes hplace
  · rename_i hn
    exact .accepts hplace hn

/-- What the task does is one move, or nothing that is seen. -/
theorem step_moves (s : Mqtt) (io : Io) : Comes s.view (.step io) (s.step io).view := by
  unfold step
  split
  · split
    · exact Or.inr (openConnection_moves s)
    · exact Or.inl rfl
    · exact Or.inl rfl
  · rename_i w rest hplace
    split
    · exact Or.inr (accept_moves hplace _)
    · exact Or.inr lose_moves
    · split
      · rename_i hw
        exact otherArms_moves (Or.inr ⟨rfl, w, rest, hplace, hw⟩)
      · exact Or.inl rfl
    · exact Or.inl rfl
  · rename_i hplace
    exact nextPacket_moves (connectAnswered_moves hplace) (Or.inl rfl)
  · rename_i rest hplace
    exact Or.inr (resubscribe_moves hplace)
  · rename_i hplace
    exact Or.inr (loop_moves hplace)
  · rename_i hplace
    exact nextPacket_moves (pollPacket_moves hplace) (otherArms_moves (Or.inl (Or.inr (Or.inl hplace))))
  · rename_i message hplace
    have hturning : s.place.Turning := Or.inr (Or.inr ⟨message, hplace⟩)
    split
    · exact Or.inr (.turns (Or.inl hturning) (Or.inl rfl))
    · exact Or.inl rfl
  · exact Or.inl rfl

end Task

/-! ## The rest of the firmware makes these moves -/

theorem discovery_moves (s : Mqtt) (c : Controls) : Comes s.view (.discovery c) (s.discovery c).view := by
  unfold discovery
  split
  · rename_i hconnected
    have hboth : ((({ s with connected := none } : Mqtt).publishAll).publishState c).view =
        { s.view.enqueue (discoveryConfigs ++ stateUpdate c) with connected := none, published := some c } := by
      unfold View.enqueue
      rw [List.foldl_append]
      rfl
    rw [hboth]
    exact Or.inr (.discovery c hconnected)
  · exact Or.inl rfl

theorem trySend_eq {α : Type} {cap : Nat} {q sent : List α} {x : α} (h : Queue.trySend cap q x = some sent) : sent = q ++ [x] := by
  unfold Queue.trySend at h
  split at h
  · exact (Option.some.inj h).symm
  · cases h

theorem register_moves (s : Mqtt) (sub : Subscription) : Moves s.view (.register sub) (s.register sub).view := by
  unfold register
  simp only
  split
  · rename_i subQueue hsent
    obtain rfl := trySend_eq hsent
    exact .register sub
  · exact .registerWaits sub

theorem resume_moves (s : Mqtt) (caller : Nat) : Comes s.view (.resume caller) (s.resume caller).view := by
  unfold resume
  split
  · rename_i sub hcaller
    split
    · rename_i subQueue hsent
      obtain rfl := trySend_eq hsent
      exact Or.inr (.resume hcaller)
    · exact Or.inl rfl
  · exact Or.inl rfl

/-- What happens between two polls of the task, or nothing if it is running. -/
theorem between_rule {P : Mqtt → Prop} {s s' : Mqtt} (h : P s) (h' : P s') : P (s.between s') := by
  unfold between
  split
  · exact h
  · exact h'

/-- Every event is one move, or nothing that is seen. -/
theorem next_moves (s : Mqtt) (e : Event) : Comes s.view e (s.next e).view := by
  have hnothing : Comes s.view e s.view := Or.inl rfl
  cases e with
  | sleep d => exact Or.inl rfl
  | wake => exact between_rule (P := fun s' => Comes s.view .wake s'.view) hnothing (Or.inl rfl)
  | step io =>
    show Comes s.view (.step io) (if s.running then s.step io else s).view
    split
    · exact step_moves s io
    · exact hnothing
  | publishState c => exact between_rule (P := fun s' => Comes s.view (.publishState c) s'.view) hnothing (Or.inr (.publishState c))
  | discovery c => exact between_rule (P := fun s' => Comes s.view (.discovery c) s'.view) hnothing (discovery_moves s c)
  | register sub => exact between_rule (P := fun s' => Comes s.view (.register sub) s'.view) hnothing (Or.inr (register_moves s sub))
  | resume caller => exact between_rule (P := fun s' => Comes s.view (.resume caller) s'.view) hnothing (resume_moves s caller)
  | receive => exact between_rule (P := fun s' => Comes s.view .receive s'.view) hnothing (Or.inl rfl)

/-- What every move preserves, and holds after boot, holds of every reachable state. -/
theorem after_rule {P : View → Prop} (hmoves : ∀ v e v', Moves v e v' → P v → P v') {credentials : Option (String × Bytes)}
    (hboot : P (boot credentials).view) (events : List Event) : P (after credentials events).view := by
  refine run_always (P := fun s : Mqtt => P s.view) (fun s e h => ?_) hboot events
  rcases next_moves s e with heq | hmove
  · rw [heq]
    exact h
  · exact hmoves _ _ _ hmove h

end Mqtt

end GateLink
