import GateLink.Config
import GateLink.Firmware
import GateLink.Lemmas.Halts

/-!
# The firmware around the gate

What a poll of the firmware's task comes to (`Firmware.pollStep_spec`), in terms of the poll of the gate task inside it
(`Task.poll_returns`): a step that settles does so with the state the gate is in, and a gate that is left at rest was not touched.

A change of the wind lock always leaves a signal behind that makes the gate task look again (`Controls.Signalled`).
-/

namespace GateLink

open Machine

/-! ## Changes of the wind lock -/

/-- The wind lock is as noted, or its change has left a signal behind. -/
def Controls.Signalled (locked : Bool) (c : Controls) : Prop :=
  locked = c.windLocked ∨ c.windLockReset ≠ none ∨ c.windLocked = true ∧ c.command = some .open

/-- A wind lock that is not as noted has left a signal behind. -/
theorem Controls.Signalled.signal {locked : Bool} {c : Controls} (h : c.Signalled locked) (hne : locked ≠ c.windLocked) :
    c.command ≠ none ∨ c.windLockReset ≠ none := by
  rcases h with heq | hreset | ⟨-, hopen⟩
  · exact absurd heq hne
  · exact Or.inr hreset
  · exact Or.inl (by rw [hopen]; nofun)

/-- With every signal taken, the wind lock is as noted. -/
theorem Controls.Signalled.exact {locked : Bool} {c : Controls} (h : c.Signalled locked) (hc : c.command = none)
    (hr : c.windLockReset = none) : locked = c.windLocked := by
  by_contra hne
  rcases h.signal hne with hcommand | hreset
  · exact hcommand hc
  · exact hreset hr

/-- Every call that changes the wind lock leaves a signal behind, and no call takes one away: a command is overwritten only while the wind
lock is off, or by an OPEN. -/
theorem Controls.Signalled.call {locked : Bool} {c : Controls} (h : c.Signalled locked) (call : Call) :
    (call.apply c).Signalled locked := by
  have send (command : GateCommand) : (c.sendUnlessLocked command).Signalled locked := by
    obtain ⟨-, he⟩ | ⟨hlock, he⟩ := c.sendUnlessLocked_cases command
    · rw [he]
      exact h
    · rw [he]
      refine h.imp_right fun h => h.imp_right fun ⟨hon, _⟩ => ?_
      cases hlock.symm.trans hon
  cases call with
  | «open» => exact send .open
  | close => exact send .close
  | stop => exact send .stop
  | impulse => exact send .impulse
  | windTrigger => exact Or.inr (Or.inr ⟨rfl, rfl⟩)
  | resetWindLock => exact Or.inr (Or.inl nofun)
  | barrier1Set active =>
    simp only [Call.apply]
    obtain ⟨-, he⟩ | ⟨-, hlock, he⟩ := c.barrier1Set_cases active
    · rw [he]
      exact h
    · rw [he]
      exact Or.inr (Or.inr ⟨hlock, rfl⟩)
  | barrier2Set active => exact h
  | setBarrierBypass active => exact h

/-- What the call sets the wind lock to. -/
def Call.locks : Call → Option Bool
  | .windTrigger => some true
  | .resetWindLock => some false
  | _ => none

/-- A call sets the wind lock or leaves it alone. -/
theorem windLocked_call (c : Controls) (call : Call) : (call.apply c).windLocked = call.locks.getD c.windLocked := by
  have send (command : GateCommand) : (c.sendUnlessLocked command).windLocked = c.windLocked := by
    obtain ⟨-, he⟩ | ⟨-, he⟩ := c.sendUnlessLocked_cases command
    · rw [he]
    · rw [he]
      rfl
  cases call with
  | «open» => exact send .open
  | close => exact send .close
  | stop => exact send .stop
  | impulse => exact send .impulse
  | windTrigger | resetWindLock | barrier2Set | setBarrierBypass => rfl
  | barrier1Set active =>
    simp only [Call.apply]
    obtain ⟨-, he⟩ | ⟨-, -, he⟩ := c.barrier1Set_cases active <;> rw [he] <;> rfl

/-- The gate task leaves the wind lock alone. -/
theorem windLocked_step (locked : Bool) : Preserved fun g _ => g.controls.windLocked = locked := by
  intro g p g' p' hs h
  cases hs with
  | stop => simpa using h
  | start => simpa using h
  | complete => simpa using h
  | finish =>
    rw [Gate.endDrive_controls]
    exact h
  | settle =>
    rw [Gate.endStep_controls]
    exact h
  | _ => exact h

/-! ## A poll of the gate task -/

/-- What a poll of the gate task returns with: the state of the gate if a step is over, and at rest the gate as it was. -/
def Task.Returns (t t' : Task) : Prop :=
  match t'.await with
  | .settled s => s = t'.gate.snapshot
  | .idle => t'.gate = t.gate ∧ ∀ dr dl y, t.await ≠ .moving dr dl y
  | .moving _ _ _ => True

/-- A step settles with the state of the gate, and does not come to rest in any other way. -/
def Settles (g : Gate) : Point → Prop
  | .await (.settled s) => s = g.snapshot
  | .await .idle => False
  | _ => True

theorem settles_step : PreservedWithin Settles := by
  intro g p g' p' h hinner hs
  cases hs with
  | settle => rfl
  | keep | complete => exact Point.afterLeaf_rule (P := Settles _) trivial (fun _ => trivial) (fun _ _ => trivial) _
  | refuse | begin | stop | block | look | notDue | start | skip | finish => trivial
  | takePending | takeCommand | takeReset | rest | readClock | timer | sameCommand | interrupt | barrier | announce | suspend =>
    exact absurd rfl (hinner _)

theorem Task.not_settled {t : Task} {w : Await} (h : t.await = w) (hw : ∀ s, w ≠ .settled s) : ¬t.Settled :=
  fun ⟨s, hs⟩ => hw s (h.symm.trans hs)

theorem Task.poll_returns (t : Task) : t.Returns t.poll := by
  refine settles_step.poll_rule (P := fun s => s = t ∨ ∃ dr dl y, s.await = .moving dr dl y) (Q := t.Returns) (Or.inl rfl)
    (fun s _ => ?_) (fun r hr => ⟨?_, ?_⟩) fun s s' hs hsus => ?_
  · exact ⟨fun _ p _ hp => by cases p <;> first | trivial | exact absurd rfl (hp _),
      fun _ _ _ _ p _ hp => by cases p <;> first | trivial | exact absurd rfl (hp _)⟩
  · rintro ⟨sn, ha⟩
    unfold Task.Holds at hr
    unfold Task.Returns
    rw [ha] at hr ⊢
    exact hr
  · intro hn
    unfold Task.Holds at hr
    cases ha : r.await with
    | settled sn => exact absurd ⟨sn, ha⟩ hn
    | idle =>
      rw [ha] at hr
      exact hr.elim
    | moving dr dl y => exact Or.inr ⟨dr, dl, y, rfl⟩
  · obtain ⟨-, -, ⟨hrest, hg, ha⟩ | ⟨dr, dl, y, -, ha⟩⟩ := hsus
    · obtain rfl := hs.resolve_right fun ⟨dr, dl, y, hm⟩ => hrest dr dl y hm
      unfold Task.Returns
      rw [ha]
      exact ⟨hg, hrest⟩
    · unfold Task.Returns
      rw [ha]
      trivial

/-! ## The firmware's task -/

namespace Firmware

/-- What a poll of the firmware's task that polls the gate comes to. -/
structure Polled (f f' : Firmware) (t : Task) : Prop where
  task : f'.task = t
  saved : f'.saved = f.saved
  flash : f'.flash = f.flash
  saves : f'.saves = f.saves
  stage : (∃ s, t.await = .settled s ∧ toGateState s ≠ f.saved ∧ f'.stage = .lock (toGateState s)) ∨
    f'.stage = f.stage ∧ ∀ s, t.await = .settled s → toGateState s = f.saved

theorem pollStep_spec (f : Firmware) (sleep : Duration) (lag : Nat → Duration) :
    f.Polled (f.pollStep sleep lag) (f.task.wait sleep lag).poll := by
  unfold pollStep
  simp only
  split
  · rename_i s ha
    split
    · rename_i he
      exact ⟨rfl, rfl, rfl, rfl, Or.inr ⟨rfl, fun s' ha' => by cases ha.symm.trans ha'; exact he⟩⟩
    · rename_i hne
      exact ⟨rfl, rfl, rfl, rfl, Or.inl ⟨s, ha, hne, rfl⟩⟩
  · rename_i hn
    exact ⟨rfl, rfl, rfl, rfl, Or.inr ⟨rfl, fun s ha => absurd ha (hn s)⟩⟩

/-- A poll polls the gate in `gate.step()`, and does nothing otherwise. -/
theorem poll_rule {P : Firmware → Prop} {f : Firmware} {sleep : Duration} {lag : Nat → Duration} (h : P f)
    (hpoll : f.stage = .step → ∀ f', f.Polled f' (f.task.wait sleep lag).poll → P f') : P (f.poll sleep lag) := by
  unfold poll
  split
  · rename_i hs
    exact hpoll hs _ (f.pollStep_spec sleep lag)
  · exact h

/-- An action calls on the controls, and leaves the loop of the task where it is. -/
theorem act_spec (f : Firmware) (a : Action) : (f.act a).task = f.task.call a.call ∧ (f.act a).stage = f.stage ∧
    (f.act a).saved = f.saved ∧ (f.act a).flash = f.flash ∧ (f.act a).saves = f.saves := by
  cases a with
  | input i => exact ⟨rfl, rfl, rfl, rfl, rfl⟩
  | execute command => cases command <;> exact ⟨rfl, rfl, rfl, rfl, rfl⟩

/-- The record that is in flash or on its way there, as far as the task knows. -/
def record (f : Firmware) : GateState :=
  match f.stage with
  | .step => f.saved
  | .lock state | .save state => state

theorem record_step {f : Firmware} (h : f.stage = .step) : f.record = f.saved := by
  unfold record
  rw [h]

/-- A step that settles makes its state the record, and nothing else changes the record. -/
theorem Polled.record {f f' : Firmware} {t : Task} (h : f.Polled f' t) (hs : f.stage = .step) :
    (∀ s, t.await = .settled s → f'.record = toGateState s) ∧ (¬t.Settled → f'.record = f.record) := by
  unfold Firmware.record
  rcases h.stage with ⟨s, ha, -, hlock⟩ | ⟨hstage, hsame⟩
  · rw [hlock]
    refine ⟨fun s' ha' => ?_, fun hn => absurd ⟨s, ha⟩ hn⟩
    cases ha.symm.trans ha'
    rfl
  · rw [hstage, hs, h.saved]
    exact ⟨fun s ha => (hsame s ha).symm, fun _ => rfl⟩

/-- The event is not a save that fails. -/
def Event.Succeeds : Event → Prop
  | .saveReturns result => result = .ok
  | _ => True

/-- If no save fails, what holds of the record and the gate task changes only with actions and with polls in `gate.step()`. -/
theorem record_rule {R : GateState → Task → Prop} {f : Firmware} {e : Event} (he : e.Succeeds) (h : R f.record f.task)
    (hact : ∀ a, e = .act a → R f.record (f.task.call a.call))
    (hpoll : ∀ sleep lag state, e = .poll sleep lag → f.stage = .step →
      (∀ s, (f.task.wait sleep lag).poll.await = .settled s → state = toGateState s) →
        (¬(f.task.wait sleep lag).poll.Settled → state = f.record) → R state (f.task.wait sleep lag).poll) :
    R (f.next e).record (f.next e).task := by
  cases e with
  | act a =>
    obtain ⟨htask, hstage, hsaved, -, -⟩ := f.act_spec a
    have hrecord : (f.act a).record = f.record := by
      unfold record
      rw [hstage, hsaved]
    show R (f.act a).record (f.act a).task
    rw [hrecord, htask]
    exact hact a rfl
  | poll sleep lag =>
    refine poll_rule (P := fun f' => R f'.record f'.task) h fun hs f' hp => ?_
    obtain ⟨hsettled, hother⟩ := hp.record hs
    rw [hp.task]
    exact hpoll sleep lag f'.record rfl hs hsettled hother
  | locked =>
    show R f.locked.record f.locked.task
    unfold locked
    split
    · rename_i state hs
      unfold record at h
      rw [hs] at h
      exact h
    · exact h
  | saveReturns result =>
    obtain rfl : result = .ok := he
    show R (f.saveReturns .ok).record (f.saveReturns .ok).task
    unfold saveReturns
    split
    · rename_i state hs
      unfold record at h
      rw [hs] at h
      exact h
    · exact h

/-- If no save fails, `saved` is what is in flash. -/
theorem loaded_next (f : Firmware) (e : Event) (he : e.Succeeds) (h : loaded f.flash = f.saved) :
    loaded (f.next e).flash = (f.next e).saved := by
  cases e with
  | act a =>
    obtain ⟨-, -, hsaved, hflash, -⟩ := f.act_spec a
    show loaded (f.act a).flash = (f.act a).saved
    rw [hsaved, hflash]
    exact h
  | poll sleep lag =>
    refine poll_rule (P := fun f' => loaded f'.flash = f'.saved) h fun _ f' hp => ?_
    rw [hp.flash, hp.saved]
    exact h
  | locked =>
    show loaded f.locked.flash = f.locked.saved
    unfold locked
    split <;> exact h
  | saveReturns result =>
    obtain rfl : result = .ok := he
    show loaded (f.saveReturns .ok).flash = (f.saveReturns .ok).saved
    unfold saveReturns
    split
    · rfl
    · exact h

/-- The gate is suspended, at rest or within a movement, and no signal is left for it. -/
def Quiet (f : Firmware) : Prop :=
  f.stage = .step ∧ (f.task.await = .idle ∨ ∃ dr dl y, f.task.await = .moving dr dl y) ∧
    f.controls.command = none ∧ f.controls.barrierChanged = none ∧ f.controls.windLockReset = none

/-- The firmware of the installation, with nothing in flash, after these events. -/
def installed (events : List Event) : Firmware := after [] (settingsOf leafA 0) (settingsOf leafB 0) none events

end Firmware

end GateLink
