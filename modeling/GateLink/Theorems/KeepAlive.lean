import GateLink.Mqtt.Task

/-!
# Keep-alive

The broker drops a client that sends nothing for one and a half times its keep-alive. The client sends a PINGREQ only when it is polled, and
waits in a poll as long as nothing comes in; so the connection loop wakes it up by a timer. As long as the executor polls the task at most 15
seconds after this timer, the silence in which the task waits stays within the limit (`silence_bounded`).
-/

namespace GateLink

open Machine

namespace Mqtt

/-- While the task waits in a poll of the client, it is left alone for at most `lag` after its timer is due. -/
def Prompt (lag : Duration) (s : Mqtt) : Event → Prop
  | .sleep d => s.place = .polling → s.now + d ≤ s.timer + lag
  | _ => True

/-- A run decides whether its polls are prompt. -/
instance (lag : Duration) (s : Mqtt) : (e : Event) → Decidable (s.Prompt lag e)
  | .sleep d => inferInstanceAs (Decidable (s.place = .polling → s.now + d ≤ s.timer + lag))
  | .wake | .step _ | .publishState _ | .discovery _ | .register _ | .resume _ | .receive => isTrue trivial

end Mqtt

namespace KeepAliveAux

open Mqtt

/-- Less than a span has passed. -/
theorem lt_add_of_sub_lt {now last span : Nat} (h : now - last < span) : now < last + span := by omega

/-- Half as much again as the keep-alive is 75 s. -/
theorem twice_lt {now last : Nat} (h : now < last + 75000000) : 2 * (now - last) < 3 * 50000000 := by omega

/-- Only `sleep` moves the clock. -/
theorem discovery_now (s : Mqtt) (c : Controls) : (s.discovery c).now = s.now := by
  unfold discovery
  split <;> rfl

/-- Registering a subscription takes no time. -/
theorem register_now (s : Mqtt) (sub : Subscription) : (s.register sub).now = s.now := by
  unfold register
  simp only
  split <;> rfl

/-- Resuming a call that waited takes no time. -/
theorem resume_now (s : Mqtt) (caller : Nat) : (s.resume caller).now = s.now := by
  unfold resume
  split
  · split <;> rfl
  · rfl

/-- What is not a step of the running task takes no time, unless it is time that passes. -/
theorem next_now {s : Mqtt} {e : Mqtt.Event} (hsleep : ∀ d, e ≠ .sleep d) (hstep : ¬∃ io, e = .step io ∧ s.running = true) :
    (s.next e).now = s.now := by
  cases e with
  | sleep d => exact absurd rfl (hsleep d)
  | step io =>
    have hnothing : s.next (.step io) = s := if_neg fun hrunning => hstep ⟨io, rfl, hrunning⟩
    rw [hnothing]
  | wake | publishState | receive => exact between_rule (P := fun s' : Mqtt => s'.now = s.now) rfl rfl
  | discovery c => exact between_rule (P := fun s' : Mqtt => s'.now = s.now) rfl (discovery_now s c)
  | register sub => exact between_rule (P := fun s' : Mqtt => s'.now = s.now) rfl (register_now s sub)
  | resume caller => exact between_rule (P := fun s' : Mqtt => s'.now = s.now) rfl (resume_now s caller)

/-- Where the task waits, its timer is due within a keep-alive and a check of its last transmission, and it has not waited for much longer
than that. -/
structure Watched (lag : Duration) (s : Mqtt) : Prop where
  timer : s.place = .polling → s.timer < s.client.lastTxTime + keepAlive + keepAliveCheck
  silence : s.place = .polling → s.now < s.client.lastTxTime + keepAlive + keepAliveCheck + lag
  ping : ∀ rest, s.place = .writing .ping rest → s.timer ≤ s.now + keepAliveCheck

variable {lag : Duration} {s s' : Mqtt}

/-- Nothing is asked of a place other than a poll and a ping. -/
theorem watched_elsewhere (hpolling : s.place ≠ .polling) (hping : ∀ rest, s.place ≠ .writing .ping rest) : Watched lag s :=
  ⟨fun h => absurd h hpolling, fun h => absurd h hpolling, fun rest h => absurd h (hping rest)⟩

/-- It depends on nothing else of the connection. -/
theorem Watched.congr (h : Watched lag s) (hplace : s'.place = s.place) (hlast : s'.client.lastTxTime = s.client.lastTxTime)
    (htimer : s'.timer = s.timer) (hnow : s'.now = s.now) : Watched lag s' := by
  obtain ⟨hwatched, hsilence, hping⟩ := h
  refine ⟨?_, ?_, ?_⟩
  · rw [hplace, hlast, htimer]
    exact hwatched
  · rw [hplace, hlast, hnow]
    exact hsilence
  · rw [hplace, htimer, hnow]
    exact hping

/-- A step of the task keeps the silence watched: it arms the timer, or sends a packet. -/
theorem watched_does {io : Io} (hdoes : Does s io s') (h : Watched lag s) : Watched lag s' := by
  cases hdoes with
  | ends hplace =>
    refine watched_elsewhere ?_ ?_
    · intro hpolling
      rw [hpolling] at hplace
      exact hplace trivial
    · intro rest hping
      rw [hping] at hplace
      exact hplace trivial
  | receives hplace => exact h.congr rfl rfl rfl rfl
  | polls hplace hearly =>
    have hlt : s.now < s.client.lastTxTime + keepAlive := lt_add_of_sub_lt hearly
    refine ⟨fun _ => Nat.add_lt_add_right hlt _, fun _ => ?_, by simp⟩
    exact Nat.lt_of_lt_of_le hlt (Nat.le_trans (Nat.le_add_right _ _) (Nat.le_add_right _ _))
  | pings hplace hdue => exact ⟨by simp, by simp, fun _ _ => Nat.le_refl _⟩
  | waits | suspends | idles => exact h.congr rfl rfl rfl rfl
  | @accepts w rest n hplace hn hio =>
    refine ⟨by simp, by simp, ?_⟩
    intro rest' hping
    cases hping
    exact h.ping rest hplace
  | @completes w rest hplace =>
    cases w with
    | ping =>
      have hlt : s.now < s.now + keepAlive := Nat.lt_add_of_pos_right (by decide)
      refine ⟨fun _ => ?_, fun _ => ?_, by simp [written]⟩
      · exact Nat.lt_of_le_of_lt (h.ping rest hplace) (Nat.add_lt_add_right hlt _)
      · exact Nat.lt_of_lt_of_le hlt (Nat.le_trans (Nat.le_add_right _ _) (Nat.le_add_right _ _))
    | connect | resubscribe | ack | publish | subscribe => exact watched_elsewhere (by simp [written, deliver]) (by simp [written, deliver])
  | opens | connects | resubscribes | signals | skips | acks | delivers | publishes | subscribes | rings | puts =>
    exact watched_elsewhere (by simp [deliver]) (by simp [deliver])

/-- So does every event that is prompt. -/
theorem watched_next (s : Mqtt) (e : Mqtt.Event) (he : s.Prompt lag e) (h : Watched lag s) : Watched lag (s.next e) := by
  rcases next_cases s e with ⟨io, rfl, -, hdoes⟩ | ⟨hquiet, hsame⟩
  · exact watched_does hdoes h
  · by_cases hsleep : ∀ d, e ≠ .sleep d
    · exact h.congr hsame.place (by rw [hsame.client]) hsame.timer (next_now hsleep hquiet)
    · obtain ⟨d, hd⟩ := Classical.not_forall.mp hsleep
      obtain rfl := Classical.not_not.mp hd
      refine ⟨h.timer, fun hpolling => ?_, fun rest hping => ?_⟩
      · exact Nat.lt_of_le_of_lt (he hpolling) (Nat.add_lt_add_right (h.timer hpolling) _)
      · exact Nat.le_trans (h.ping rest hping) (Nat.add_le_add_right (Nat.le_add_right _ _) _)

/-- A connection waits for the broker until its timer is due, and pings it once nothing was sent for a keep-alive. -/
def idles : List Mqtt.Event :=
  comesUp ++ (List.replicate 4 [.sleep (fromSecs 11), .wake, .step .pending, .step .pending, .step .pending]).flatten ++
    [.sleep (fromSecs 11), .wake, .step .pending, .step .pending, .step (.accept 512), .step .pending]

end KeepAliveAux

open KeepAliveAux Mqtt

/-- The client does not fall silent: in every run in which the task, while it waits for the broker, is polled at most 15 seconds after its timer
is due, less than one and a half times the keep-alive has passed at every moment of this wait since the client has sent a packet or the
broker has accepted the connection. -/
theorem silence_bounded (credentials : Option (String × Bytes)) (events : List Mqtt.Event)
    (hprompt : Allowed Mqtt.next (Mqtt.Prompt (fromSecs 15)) (Mqtt.boot credentials) events) :
    let s := Mqtt.after credentials events
    s.place = .polling → 2 * (s.now - s.client.lastTxTime) < 3 * keepAlive := by
  intro s hpolling
  have hboot : Watched (fromSecs 15) (Mqtt.boot credentials) := watched_elsewhere (by simp [Mqtt.boot]) (by simp [Mqtt.boot])
  have hwatched : Watched (fromSecs 15) s := run_invariant (P := Watched (fromSecs 15)) watched_next hboot hprompt
  have hsilence := hwatched.silence hpolling
  have hlimit : keepAlive + keepAliveCheck + fromSecs 15 = 75000000 := by decide
  have hkeepAlive : keepAlive = 50000000 := by decide
  rw [Nat.add_assoc, Nat.add_assoc, ← Nat.add_assoc keepAlive, hlimit] at hsilence
  rw [hkeepAlive]
  exact twice_lt hsilence

/-- On an idle connection that wakes up a second late each time, the broker is pinged in time. -/
theorem silence_bounded_idles :
    2 * ((Mqtt.after none idles).now - (Mqtt.after none idles).client.lastTxTime) < 3 * keepAlive :=
  silence_bounded none idles (by decide +kernel) (by decide +kernel)

end GateLink
