import GateLink.Mqtt.Steps

/-!
# No subscription is lost

A connection that has copied the list of all subscriptions accounts for each of them: it has asked for it, it still has to in its
re-subscription, or the subscription is queued or held by a suspended call of `subscribe` (`Covered`). The list is copied after the queue is
drained with no suspension between the two, and a subscription is in the list before it is queued, so that none falls between them.
-/

namespace GateLink

open Machine

namespace Place

/-- The connection has copied the list of all subscriptions. -/
def Copied : Place → Prop
  | .resubscribing _ | .writing (.resubscribe _ _) _ => True
  | p => p.InLoop

/-- What the re-subscription still has to ask for, after the packet that is in the middle of being sent. -/
def remaining : Place → List Subscription
  | .resubscribing rest | .writing (.resubscribe _ rest) _ => rest
  | _ => []

end Place

namespace Mqtt

/-- The connection is in its loop, no subscription is queued, no call of `subscribe` is suspended, and no SUBSCRIBE is being written. -/
def Settled (s : Mqtt) : Prop :=
  s.place.InLoop ∧ s.subQueue = [] ∧ s.callers = [] ∧ ∀ p rest, s.place ≠ .writing (.subscribe p) rest

/-- In the run, `subscribe` was called with this subscription. As long as the MQTT task runs, no other task does. -/
def Called (credentials : Option (String × Bytes)) (events : List Event) (sub : Subscription) : Prop :=
  ∃ before later, events = before ++ .register sub :: later ∧ (Mqtt.after credentials before).running = false

end Mqtt

namespace SubscriptionsAux

open Mqtt

/-- What was asked for on this connection, with what is being asked for. -/
def asked (v : View) : List Subscription := (v.sent ++ v.place.inFlight).flatMap Packet.subscriptions

/-- Every subscription that this connection asks for, sooner or later. -/
def known (v : View) : List Subscription := asked v ++ v.place.remaining ++ (v.subQueue ++ v.callers)

/-- This connection accounts for everything that was ever subscribed to. -/
def Covered (v : View) : Prop := v.place.Copied → v.subscriptions ⊆ known v

/-- A connection in its loop has copied the list. -/
theorem inLoop_copied {p : Place} (h : p.InLoop) : p.Copied := by
  cases p with
  | writing w rest => cases w <;> trivial
  | resubscribing => trivial
  | offline | connAck | looping | polling | delivering | panicked => exact h

/-- A task that has copied the list has a connection. -/
theorem copied_online {p : Place} (h : p.Copied) : p.Online := by
  cases p with
  | offline | panicked => exact h
  | writing | connAck | resubscribing | looping | polling | delivering => trivial

/-- In the loop, nothing remains of the re-subscription. -/
theorem remaining_inLoop {p : Place} (h : p.InLoop) : p.remaining = [] := by
  cases p with
  | writing w rest =>
    cases w with
    | resubscribe => exact h.elim
    | connect | ping | ack | publish | subscribe => rfl
  | resubscribing => exact h.elim
  | offline | connAck | looping | polling | delivering | panicked => rfl

/-- A poll of the client that is dropped asks for nothing. -/
theorem known_polls {v : View} (h : v.place.Polls) : known v = v.sent.flatMap Packet.subscriptions ++ (v.subQueue ++ v.callers) := by
  unfold known asked
  rw [List.flatMap_append, h.inFlight.2, remaining_inLoop h.inLoop, List.append_nil, List.append_nil]

/-- A SUBSCRIBE of the connection asks for one subscription. -/
theorem subscriptions_asks {p : Subscribe} {sub : Subscription} (h : Asks p sub) : (Packet.subscribe p).subscriptions = [sub] := by
  show p.topics.map _ = _
  rw [h]
  rfl

/-- What a place accounts for itself stays accounted for when its packet is out. -/
theorem remaining_next (w : Writing) (rest : Bytes) : w.next.remaining = (Place.writing w rest).remaining := by
  cases w <;> rfl

/-- The list was copied before the packet, if it is after it. -/
theorem copied_of_next {w : Writing} (rest : Bytes) (h : w.next.Copied) : (Place.writing w rest).Copied := by
  cases w with
  | connect => exact h.elim
  | resubscribe | ping | ack | publish | subscribe => trivial

/-- After a packet, none is in flight. -/
theorem inFlight_next (w : Writing) : w.next.inFlight = [] := by
  cases w <;> rfl

/-- A call that is resumed moves its subscription to the queue. -/
theorem mem_resumed {callers : List Subscription} {caller : Nat} {sub other : Subscription} (hcaller : callers[caller]? = some sub)
    (h : other ∈ callers) : other = sub ∨ other ∈ callers.eraseIdx caller := by
  obtain ⟨i, hi⟩ := List.mem_iff_getElem?.mp h
  by_cases hsame : i = caller
  · subst hsame
    exact Or.inl (Option.some.inj (hi.symm.trans hcaller))
  · exact Or.inr (List.mem_eraseIdx_iff_getElem?.mpr ⟨i, hsame, hi⟩)

/-- Everything is accounted for in a poll of the client that can be dropped. -/
theorem covered_polls {v : View} (hplace : v.place.Polls) (h : Covered v) :
    v.subscriptions ⊆ v.sent.flatMap Packet.subscriptions ++ (v.subQueue ++ v.callers) := by
  have hall := h (inLoop_copied hplace.inLoop)
  rwa [known_polls hplace] at hall

/-- What is new is queued, or held by a call, and nothing is taken from there. -/
theorem covered_queues {v v' : View} (h : Covered v) (hplace : v'.place = v.place) (hsent : v'.sent = v.sent)
    (hnew : ∀ sub ∈ v'.subscriptions, sub ∈ v.subscriptions ∨ sub ∈ v'.subQueue ++ v'.callers)
    (hkept : v.subQueue ++ v.callers ⊆ v'.subQueue ++ v'.callers) : Covered v' := by
  intro hcopied sub hsub
  rw [hplace] at hcopied
  unfold known asked
  rw [hplace, hsent]
  rcases hnew sub hsub with hold | hqueued
  · rcases List.mem_append.mp (h hcopied hold) with hasked | hqueued
    · exact List.mem_append_left _ hasked
    · exact List.mem_append_right _ (hkept hqueued)
  · exact List.mem_append_right _ hqueued

/-- Every event of the connection keeps it covered. -/
theorem covered_moves (v : View) (e : Mqtt.Event) (v' : View) (hmove : Moves v e v') (h : Covered v) : Covered v' := by
  cases hmove with
  | ends hplace => exact fun hcopied => absurd (copied_online hcopied) hplace
  | opens => exact False.elim
  | connects =>
    -- the queue is drained, and all that was in it is in the list that is copied
    intro _ sub hsub
    exact List.mem_append_left _ (List.mem_append_right _ hsub)
  | @resubscribes io sub rest p bytes hplace hp he =>
    have hall : v.subscriptions ⊆ known v := h (by rw [hplace]; trivial)
    intro _
    simpa [known, asked, hplace, Place.inFlight, Place.remaining, Writing.packet, subscriptions_asks hp] using hall
  | signals hplace =>
    have hall : v.subscriptions ⊆ known v := h (by rw [hplace]; trivial)
    intro _
    simpa [known, asked, hplace, Place.inFlight, Place.remaining] using hall
  | turns hplace hnext =>
    have hall := covered_polls hplace.polls h
    intro _
    rw [known_polls hnext.polls]
    exact hall
  | @polls io w bytes hplace hw he =>
    have hall := covered_polls hplace.polls h
    have hwriting : (Place.writing w bytes).Polls := hw
    intro _
    rw [known_polls hwriting]
    exact hall
  | publishes hplace hout hp he =>
    have hall := covered_polls hplace.polls h
    intro _
    simpa [known, asked, Place.inFlight, Place.remaining, Writing.packet, Packet.subscriptions] using hall
  | subscribes hplace hqueue hp he =>
    have hall := covered_polls hplace.polls h
    rw [hqueue] at hall
    intro _
    simpa [known, asked, Place.inFlight, Place.remaining, Writing.packet, subscriptions_asks hp] using hall
  | @accepts io w rest n hplace hn =>
    intro hcopied
    have hbefore : v.place.Copied := by
      rw [hplace]
      cases w <;> exact hcopied
    have hsame : (Place.writing w (rest.drop n)).remaining = (Place.writing w rest).remaining := by cases w <;> rfl
    have hall := h hbefore
    unfold known asked at hall ⊢
    rw [hplace] at hall
    rw [hsame]
    exact hall
  | @completes io w rest hplace =>
    intro hcopied
    have hbefore : v.place.Copied := by
      rw [hplace]
      exact copied_of_next rest hcopied
    have hall := h hbefore
    unfold known asked at hall ⊢
    rw [hplace] at hall
    rw [inFlight_next, remaining_next w rest, List.append_nil]
    exact hall
  | publishState | discovery => exact h
  | register sub =>
    refine covered_queues h rfl rfl (fun other hother => ?_) (fun other hother => ?_)
    · rcases List.mem_append.mp hother with hold | hnew
      · exact Or.inl hold
      · exact Or.inr (List.mem_append_left _ (List.mem_append_right _ hnew))
    · rcases List.mem_append.mp hother with hqueued | hcall
      · exact List.mem_append_left _ (List.mem_append_left _ hqueued)
      · exact List.mem_append_right _ hcall
  | registerWaits sub =>
    refine covered_queues h rfl rfl (fun other hother => ?_) (fun other hother => ?_)
    · rcases List.mem_append.mp hother with hold | hnew
      · exact Or.inl hold
      · exact Or.inr (List.mem_append_right _ (List.mem_append_right _ hnew))
    · rcases List.mem_append.mp hother with hqueued | hcall
      · exact List.mem_append_left _ hqueued
      · exact List.mem_append_right _ (List.mem_append_left _ hcall)
  | @resume caller sub hcaller =>
    refine covered_queues h rfl rfl (fun other hother => Or.inl hother) (fun other hother => ?_)
    rcases List.mem_append.mp hother with hqueued | hcall
    · exact List.mem_append_left _ (List.mem_append_left _ hqueued)
    · obtain rfl | hkept := mem_resumed hcaller hcall
      · exact List.mem_append_left _ (List.mem_append_right _ List.mem_cons_self)
      · exact List.mem_append_right _ hkept

/-! ## What was subscribed to stays so -/

/-- No event of the connection takes a subscription from the list. -/
theorem subscriptions_moves {v v' : View} {e : Mqtt.Event} (h : Moves v e v') : v.subscriptions ⊆ v'.subscriptions := by
  cases h with
  | register | registerWaits => exact List.subset_append_left _ _
  | ends | opens | connects | resubscribes | signals | turns | polls | publishes | subscribes | accepts | completes | publishState
  | discovery | resume => exact List.Subset.refl _

/-- A subscription in the list stays there with every event. -/
theorem subscriptions_next {sub : Subscription} (s : Mqtt) (e : Mqtt.Event) (h : sub ∈ s.subscriptions) :
    sub ∈ (s.next e).subscriptions := by
  rcases next_moves s e with heq | hmove
  · have hsame : (s.next e).subscriptions = s.subscriptions := congrArg View.subscriptions heq
    rw [hsame]
    exact h
  · exact subscriptions_moves hmove h

/-- A device that has panicked stays so. -/
theorem panicked_next (s : Mqtt) (e : Mqtt.Event) (h : s.place = .panicked) : (s.next e).place = .panicked := by
  have hbetween (s' : Mqtt) : (s.between s').place = .panicked := by
    rw [between, if_pos (Or.inr h)]
    exact h
  cases e with
  | sleep => exact h
  | step io =>
    show (if s.running then s.step io else s).place = _
    have hstep : s.step io = s := by
      unfold step
      rw [h]
    rw [hstep, ite_self]
    exact h
  | wake | publishState | discovery | register | resume | receive => exact hbetween _

/-- A call of `subscribe` adds to the list at once. -/
theorem register_subscriptions (s : Mqtt) (sub : Subscription) : sub ∈ (s.register sub).subscriptions := by
  unfold register
  simp only
  split <;> exact List.mem_append_right _ List.mem_cons_self

/-- What was called for is in the list, or the device has panicked. -/
theorem subscriptions_called {credentials : Option (String × Bytes)} {events : List Mqtt.Event} {sub : Subscription}
    (h : Called credentials events sub) :
    (Mqtt.after credentials events).place = .panicked ∨ sub ∈ (Mqtt.after credentials events).subscriptions := by
  obtain ⟨before, later, rfl, hrunning⟩ := h
  unfold Mqtt.after
  rw [run_append, run_cons]
  have hcall : ((Mqtt.after credentials before).next (.register sub)).place = .panicked ∨
      sub ∈ ((Mqtt.after credentials before).next (.register sub)).subscriptions := by
    show ((Mqtt.after credentials before).between _).place = _ ∨ sub ∈ ((Mqtt.after credentials before).between _).subscriptions
    unfold between
    split
    · rename_i hbusy
      exact Or.inl (hbusy.resolve_left (by simp [hrunning]))
    · exact Or.inr (register_subscriptions _ _)
  refine run_always (P := fun s : Mqtt => s.place = .panicked ∨ sub ∈ s.subscriptions) (fun s e h => ?_) hcall later
  exact h.imp (panicked_next s e) (subscriptions_next s e)

/-- In a connection with nothing left to ask for, everything is sent. -/
theorem known_settled {s : Mqtt} (h : s.Settled) : known s.view = s.sent.flatMap Packet.subscriptions := by
  obtain ⟨hloop, hqueue, hcallers, hnone⟩ := h
  have hnothing : s.place.inFlight.flatMap Packet.subscriptions = [] := by
    cases hp : s.place with
    | writing w rest =>
      cases w with
      | subscribe p => exact absurd hp (hnone p rest)
      | resubscribe =>
        rw [hp] at hloop
        exact hloop.elim
      | connect | ping | ack | publish => rfl
    | offline | connAck | resubscribing | looping | polling | delivering | panicked => rfl
  show (s.sent ++ s.place.inFlight).flatMap Packet.subscriptions ++ s.place.remaining ++ (s.subQueue ++ s.callers) = _
  rw [List.flatMap_append, hnothing, remaining_inLoop hloop, hqueue, hcallers]
  simp

/-- Only a SUBSCRIBE asks for subscriptions, each with its topic. -/
theorem mem_subscriptions {packet : Packet} {sub : Subscription} (h : sub ∈ packet.subscriptions) :
    ∃ p, packet = .subscribe p ∧ (sub.topic, sub.qos) ∈ p.topics := by
  cases packet with
  | subscribe p =>
    obtain ⟨topic, htopic, rfl⟩ := List.mem_map.mp h
    exact ⟨p, rfl, htopic⟩
  | connect | publish | pubAck | pingReq => cases h

/-! ## Runs -/

/-- The commands for the cover. -/
def cover : Subscription := { topic := coverCommandTopic, qos := .atLeastOnce }

/-- The commands for the bypass. -/
def bypass : Subscription := { topic := barrierBypassCommandTopic, qos := .atLeastOnce }

/-- One subscription is known when the connection comes up; the other one comes while the first is being asked for again. -/
def resubscribed : List Mqtt.Event :=
  [.register cover, .wake, .step .opened, .step (.accept 512), .step (.data [0x20, 2, 0, 0]), .step .pending, .step .pending, .step (.accept 3),
    .step .pending, .register bypass, .wake, .step (.accept 512), .step .pending, .step .pending, .step .pending, .step (.accept 512),
    .step .pending, .step .pending]

end SubscriptionsAux

open SubscriptionsAux Mqtt

/-- No subscription is lost: whenever a connection is in its loop with no subscription queued, no call of `subscribe` suspended and no
SUBSCRIBE being written, everything that `subscribe` was ever called for has had a SUBSCRIBE sent on this connection. -/
theorem subscriptions_sent (credentials : Option (String × Bytes)) (events : List Mqtt.Event) :
    let s := Mqtt.after credentials events
    s.Settled → ∀ sub, Mqtt.Called credentials events sub → ∃ p, Packet.subscribe p ∈ s.sent ∧ (sub.topic, sub.qos) ∈ p.topics := by
  intro s hsettled sub hcalled
  have hcovered : Covered s.view := Mqtt.after_rule covered_moves False.elim events
  have hsub : sub ∈ s.subscriptions := by
    refine (subscriptions_called hcalled).resolve_left fun hpanicked => ?_
    have honline := hsettled.1.online
    rw [hpanicked] at honline
    exact honline
  have hknown : sub ∈ known s.view := hcovered (inLoop_copied hsettled.1) hsub
  rw [known_settled hsettled] at hknown
  obtain ⟨packet, hsent, hasks⟩ := List.mem_flatMap.mp hknown
  obtain ⟨p, rfl, htopic⟩ := mem_subscriptions hasks
  exact ⟨p, hsent, htopic⟩

/-- The call that comes while the connection re-subscribes. -/
theorem subscriptions_sent_resubscribed :
    ∃ p, Packet.subscribe p ∈ (Mqtt.after none resubscribed).sent ∧ (bypass.topic, bypass.qos) ∈ p.topics := by
  have hplace : (Mqtt.after none resubscribed).place = .polling := by decide +kernel
  have hsettled : (Mqtt.after none resubscribed).Settled := by
    refine ⟨?_, by decide +kernel, by decide +kernel, ?_⟩
    · rw [hplace]
      trivial
    · rw [hplace]
      nofun
  have hcalled : Mqtt.Called none resubscribed bypass := ⟨resubscribed.take 9, resubscribed.drop 10, rfl, by decide +kernel⟩
  exact subscriptions_sent none resubscribed hsettled bypass hcalled

end GateLink
