import GateLink.Lemmas.Reader
import GateLink.Mqtt.Connection

/-!
# The MQTT handler

The single place where incoming messages are handled (`mqtt_handler.rs`), and what they mean (`Command::parse` of `mqtt.rs`). A turn of the
handler is what it does from one await to the next: it subscribes to the topics of the commands, one after the other, and then takes one
message after the other.

Each command comes as one message: its topic and its payload are those that Home Assistant is told of, and no other message is parsed as
this command (`command_eq_some_iff`).
-/

namespace GateLink

/-- `COMMAND_TOPICS` -/
def commandTopics : List String := [coverCommandTopic, buttonCommandTopic, barrierBypassCommandTopic]

def openPayload : String := "OPEN"

def closePayload : String := "CLOSE"

def stopPayload : String := "STOP"

/-- `CommandError` -/
inductive CommandError where
  | unknownTopic | unknownPayload
  deriving DecidableEq, Repr

/-- `Command::parse`. A payload that is no text is taken for an empty one. -/
def Command.parse (topic : String) (payload : Bytes) : Except CommandError Command :=
  let payload := (fromUtf8 payload).getD ""
  if topic = coverCommandTopic then
    if payload = openPayload then .ok .open
    else if payload = closePayload then .ok .close
    else if payload = stopPayload then .ok .stop
    else .error .unknownPayload
  else if topic = buttonCommandTopic then
    if payload = resetWindLockPayload then .ok .resetWindLock else .error .unknownPayload
  else if topic = barrierBypassCommandTopic then
    if payload = onOff true then .ok (.setBarrierBypass true)
    else if payload = onOff false then .ok (.setBarrierBypass false)
    else .error .unknownPayload
  else .error .unknownTopic

/-- Where the handler stands: at the next of the topics to subscribe to, in `SUB_QUEUE.send` for the one before, or in `receive`. -/
inductive Handler where
  | subscribing (rest : List String)
  | sending (rest : List String)
  | receiving
  deriving DecidableEq, Repr

namespace Handler

/-- The handler before it is polled. -/
def new : Handler := .subscribing commandTopics

def subscription (topic : String) : Subscription := { topic := topic, qos := .atLeastOnce }

/-- There is space in the queue of subscriptions. -/
def Sends (s : Mqtt) : Prop := s.subQueue.length < queueDepth

instance (s : Mqtt) : Decidable (Sends s) := inferInstanceAs (Decidable (_ < _))

/-- One turn: where the handler stands then. -/
def next (h : Handler) (s : Mqtt) : Handler :=
  match h with
  | .subscribing [] => .receiving
  | .subscribing (_ :: rest) => if Sends s then .subscribing rest else .sending rest
  | .sending rest => if Sends s then .subscribing rest else .sending rest
  | .receiving => .receiving

/-- What one turn does to the queues: a call of `subscribe`, the end of a call that was suspended, or a message that is taken. -/
def acts (h : Handler) (s : Mqtt) : Mqtt :=
  match h with
  | .subscribing [] => s
  | .subscribing (topic :: _) => s.next (.register (subscription topic))
  | .sending _ => s.next (.resume 0)
  | .receiving => s.next .receive

/-- The message that one turn takes. -/
def takes (h : Handler) (s : Mqtt) : Option IncomingMessage :=
  match h with
  | .receiving => s.incoming.head?
  | .subscribing _ | .sending _ => none

end Handler

/-- The command that a message is for, if it is for one. -/
def IncomingMessage.command (m : IncomingMessage) : Option Command := (Command.parse m.topic m.payload).toOption

/-! ## Commands and their messages -/

namespace Command

/-- The topic that a command comes on. -/
def topic : Command → String
  | .open | .close | .stop => coverCommandTopic
  | .resetWindLock => buttonCommandTopic
  | .setBarrierBypass _ => barrierBypassCommandTopic

/-- The payload that a command comes with. -/
def payload : Command → String
  | .open => openPayload
  | .close => closePayload
  | .stop => stopPayload
  | .resetWindLock => resetWindLockPayload
  | .setBarrierBypass active => onOff active

theorem payload_ne_empty (c : Command) : c.payload ≠ "" := by
  cases c with
  | setBarrierBypass active => cases active <;> decide
  | «open» | close | stop | resetWindLock => decide

/-- A payload is read as a text that is not empty exactly if it is this text. -/
theorem getD_fromUtf8_eq_iff {bytes : Bytes} {s : String} (h : s ≠ "") : (fromUtf8 bytes).getD "" = s ↔ bytes = utf8 s := by
  constructor
  · intro hs
    cases hread : fromUtf8 bytes with
    | none =>
      rw [hread] at hs
      exact absurd hs.symm h
    | some s' =>
      rw [hread] at hs
      obtain rfl : s' = s := hs
      exact (utf8_of_fromUtf8 hread).symm
  · rintro rfl
    rw [fromUtf8_utf8]
    rfl

/-- A message is parsed by its topic and the text of its payload. -/
theorem parse_text_iff {topic : String} {bytes : Bytes} {c : Command} :
    parse topic bytes = .ok c ↔ topic = c.topic ∧ (fromUtf8 bytes).getD "" = c.payload := by
  unfold parse
  simp only
  generalize (fromUtf8 bytes).getD "" = text
  constructor
  · intro h
    split at h
    · rename_i ht
      split at h
      · cases h
        exact ⟨ht, ‹_›⟩
      · split at h
        · cases h
          exact ⟨ht, ‹_›⟩
        · split at h
          · cases h
            exact ⟨ht, ‹_›⟩
          · cases h
    · split at h
      · rename_i ht
        split at h
        · cases h
          exact ⟨ht, ‹_›⟩
        · cases h
      · split at h
        · rename_i ht
          split at h
          · cases h
            exact ⟨ht, ‹_›⟩
          · split at h
            · cases h
              exact ⟨ht, ‹_›⟩
            · cases h
        · cases h
  · rintro ⟨rfl, rfl⟩
    cases c with
    | setBarrierBypass active => cases active <;> rfl
    | «open» | close | stop | resetWindLock => rfl

end Command

end GateLink
