import GateLink.Lemmas.Shape
import GateLink.WarningLight

/-!
# The warning light misses no movement and never sticks on

The warning light task sleeps on a signal that others raise, and what it is about is derived from two flags that others write. What
carries the result is one invariant of the controls and of where the task stands: whenever the light is to blink, the task blinks or the
signal is set (`Woken`). The gate and the calls only ever make the light active together with the signal, and only the task itself
takes the signal, after which it looks at the flags again.
-/

namespace GateLink

open Machine

/-- If the light is to blink, its task waits on its blink timer or has been signalled. -/
def LightAwait.Woken (w : LightAwait) (c : Controls) : Prop :=
  c.warningLightActive = true → (∃ deadline, w = .timer deadline) ∨ c.lightChanged ≠ none

/-- The newest write switched the lamp on, while the light was to blink, and the timer is due half a period later. -/
def WarningLight.Armed (l : WarningLight) : Prop :=
  ∃ w rest, l.writes = w :: rest ∧ w.SwitchesOn ∧ w.controls.warningLightActive = true ∧ l.await = .timer (w.time + l.halfPeriod)

/-- What holds of the warning light whenever it is not running. -/
structure WarningLight.Ok (halfPeriod : Duration) (s : WarningLight.On) : Prop where
  halfPeriod : s.1.halfPeriod = halfPeriod
  lit : s.1.lit = s.1.pin
  armed : s.1.pin = true → s.1.Armed
  woken : s.1.await.Woken s.2.controls

namespace LightAux

/-! ## The gate and the calls -/

/-- A change that does not make the light active, and leaves the signal alone. -/
theorem Woken.congr {w : LightAwait} {c c' : Controls} (h : w.Woken c)
    (ha : c'.warningLightActive = true → c.warningLightActive = true) (hl : c'.lightChanged = c.lightChanged) : w.Woken c' := by
  intro h'
  rw [hl]
  exact h (ha h')

/-- A change that raises the signal. -/
theorem Woken.of_signal {w : LightAwait} {c : Controls} (h : c.lightChanged ≠ none) : w.Woken c := fun _ => Or.inr h

/-- The light is active exactly if it is to blink. -/
theorem active_iff (c : Controls) :
    c.warningLightActive = true ↔ c.currentDirection ≠ .dirIdle ∨ c.barrierBypass = true := by
  simp [Controls.warningLightActive]

/-- The gate makes the light active only as it signals, and never takes the signal. -/
theorem woken_step (w : LightAwait) : Preserved (fun g _ => w.Woken g.controls) := by
  intro g p g' p' hs h
  cases hs with
  | begin hc hb => exact Woken.of_signal (Option.some_ne_none ())
  | stop hc => simpa using h
  | start hp hn hr => simpa using h
  | complete hp hn => simpa using h
  | @finish dr result =>
    rw [Gate.endDrive_controls]
    refine Woken.congr h (fun ha => ?_) rfl
    rw [active_iff] at ha ⊢
    refine ha.imp_right fun hbypass => ?_
    cases hm : dr.moved with
    | false => simpa [hm] using hbypass
    | true => simp [hm] at hbypass
  | settle =>
    rw [Gate.endStep_controls]
    refine Woken.congr h (fun ha => ?_) rfl
    rw [active_iff] at ha ⊢
    exact Or.inr (ha.resolve_left (fun hd => hd rfl))
  | _ => exact h

/-- A call makes the light active only as it signals, and never takes the signal. -/
theorem woken_call (w : LightAwait) (call : Call) {c : Controls} (h : w.Woken c) : w.Woken (call.apply c) := by
  have send (command : GateCommand) : w.Woken (c.sendUnlessLocked command) := by
    obtain ⟨-, hs⟩ | ⟨-, hs⟩ := c.sendUnlessLocked_cases command <;> rw [hs] <;> exact h
  cases call with
  | «open» => exact send .open
  | close => exact send .close
  | stop => exact send .stop
  | impulse => exact send .impulse
  | setBarrierBypass active => exact Woken.of_signal (Option.some_ne_none ())
  | barrier1Set active =>
    simp only [Call.apply]
    obtain ⟨-, hb⟩ | ⟨-, -, hb⟩ := c.barrier1Set_cases active <;> rw [hb] <;> exact h
  | _ => exact h

/-- Building the gate leaves the light inactive, unless the bypass is armed. -/
theorem woken_boot (w : LightAwait) (a b : MotorSettings) (locked : Bool) {bd : Board} (h : w.Woken bd.controls) :
    w.Woken (bd.boot a b locked).gate.controls := by
  refine Woken.congr h (fun ha => ?_) rfl
  rw [active_iff] at ha ⊢
  exact Or.inr (ha.resolve_left (fun hd => hd rfl))

/-! ## The warning light itself -/

section

variable {halfPeriod : Duration}

/-- From the top of its loop the task reaches its next await in good order, whatever is on the board. -/
theorem ok_top {l : WarningLight} (hh : l.halfPeriod = halfPeriod) (hl : l.lit = l.pin) (bd : Board) :
    WarningLight.Ok halfPeriod (l.top bd).state := by
  unfold WarningLight.top
  split
  · rename_i ha
    refine ⟨hh, rfl, fun hp => ?_, fun _ => Or.inl ⟨_, rfl⟩⟩
    have hoff : l.pin = false := by
      rw [← hl]
      simpa [WarningLight.setState] using hp
    exact ⟨_, _, rfl, ⟨hp, hoff⟩, ha, rfl⟩
  · rename_i ha
    exact ⟨hh, rfl, fun hp => absurd hp Bool.false_ne_true, fun h => absurd h ha⟩

/-- Every turn of its loop keeps the light in good order. -/
theorem ok_turn {s : WarningLight.On} (h : WarningLight.Ok halfPeriod s) :
    WarningLight.Ok halfPeriod (WarningLight.turn s).state := by
  have htop (bd : Board) : WarningLight.Ok halfPeriod (s.1.top bd).state := ok_top h.halfPeriod h.lit bd
  unfold WarningLight.turn
  split
  · exact htop _
  · split
    · exact htop _
    · exact ⟨h.halfPeriod, h.lit, h.armed, h.woken⟩
  · split
    · exact htop _
    · exact h

/-- A poll of its task keeps the light in good order. -/
theorem ok_poll {s : WarningLight.On} (h : WarningLight.Ok halfPeriod s) : WarningLight.Ok halfPeriod (WarningLight.poll s) :=
  loop_invariant (P := WarningLight.Ok halfPeriod) (fun _ hs => ok_turn hs) h _

end

/-- If the loop goes around, it has found the light inactive, and waits for the signal. -/
theorem top_again {l : WarningLight} {bd : Board} {s : WarningLight.On} (h : l.top bd = .again s) :
    s.1.await = .changed ∧ s.2 = bd := by
  unfold WarningLight.top at h
  split at h
  · cases h
  · obtain rfl := Turn.again.inj h
    exact ⟨rfl, rfl⟩

/-- If the loop halts, the light is active, and the task waits on its timer. -/
theorem top_halt {l : WarningLight} {bd : Board} {s : WarningLight.On} (h : l.top bd = .halt s) :
    ∃ deadline, s.1.await = .timer deadline := by
  unfold WarningLight.top at h
  split at h
  · obtain rfl := Turn.halt.inj h
    exact ⟨_, rfl⟩
  · cases h

/-- A turn that goes around uses something up. -/
theorem work_again {s s' : WarningLight.On} (h : WarningLight.turn s = .again s') : WarningLight.work s' < WarningLight.work s := by
  unfold WarningLight.turn at h
  split at h
  · rename_i ha
    obtain ⟨hc, hb⟩ := top_again h
    simp [WarningLight.work, ha, hc, hb]
  · rename_i deadline ha
    split at h
    · obtain ⟨hc, hb⟩ := top_again h
      simp [WarningLight.work, ha, hc, hb]
    · cases h
  · rename_i ha
    split at h
    · rename_i hs
      obtain ⟨hc, hb⟩ := top_again h
      simp [WarningLight.work, WarningLight.takeLightChanged, ha, hc, hb, hs]
    · cases h

end LightAux

open LightAux

/-- A poll of the warning light ends with the task suspended: on its timer, or on a signal that is not set. -/
theorem WarningLight.poll_suspends (s : WarningLight.On) :
    (∃ deadline, (poll s).1.await = .timer deadline) ∨
      ((poll s).1.await = .changed ∧ (poll s).2.controls.lightChanged = none) := by
  refine loop_rule (P := fun _ => True) (Q := fun s : On => (∃ deadline, s.1.await = .timer deadline) ∨
    (s.1.await = .changed ∧ s.2.controls.lightChanged = none)) work (fun s s' _ h => ⟨trivial, work_again h⟩) (fun s s' _ h => ?_)
    trivial (Nat.lt_succ_self _)
  unfold turn at h
  split at h
  · exact Or.inl (top_halt h)
  · rename_i deadline ha
    split at h
    · exact Or.inl (top_halt h)
    · obtain rfl := Turn.halt.inj h
      exact Or.inl ⟨deadline, ha⟩
  · rename_i ha
    split at h
    · exact Or.inl (top_halt h)
    · rename_i hs
      obtain rfl := Turn.halt.inj h
      exact Or.inr ⟨ha, hs⟩

/-! ## The tasks together -/

/-- What holds of the warning light in every state of the tasks. -/
def Tasks.LightOk (halfPeriod : Duration) (s : Tasks) : Prop := WarningLight.Ok halfPeriod (s.light, s.gate.board)

namespace LightAux

variable {halfPeriod : Duration}

/-- A change of the board that keeps the light woken. -/
theorem lightOk_congr {s s' : Tasks} (h : s.LightOk halfPeriod) (hl : s'.light = s.light)
    (hw : s.light.await.Woken s.controls → s'.light.await.Woken s'.controls) : s'.LightOk halfPeriod := by
  refine ⟨?_, ?_, ?_, hw h.woken⟩ <;> simp only [hl]
  · exact h.halfPeriod
  · exact h.lit
  · exact h.armed

/-- A call keeps the light in good order. -/
theorem lightOk_call {s : Tasks} (c : Call) (h : s.LightOk halfPeriod) : (s.call c).LightOk halfPeriod := by
  refine lightOk_congr h rfl fun hw => ?_
  unfold Tasks.call Tasks.controls
  cases hg : s.gate <;> simp only [Tasks.controls, hg] at hw <;> exact woken_call _ c hw

/-- Waiting for the next poll keeps the light in good order. -/
theorem lightOk_wait {s : Tasks} (sleep : Duration) (lag : Nat → Duration) (h : s.LightOk halfPeriod) :
    (s.wait sleep lag).LightOk halfPeriod := by
  refine lightOk_congr h rfl fun hw => ?_
  unfold Tasks.wait Tasks.controls
  cases hg : s.gate <;> simp only [Tasks.controls, hg] at hw <;> exact hw

/-- A poll of the gate keeps the light in good order. -/
theorem lightOk_pollGate {s : Tasks} (h : s.LightOk halfPeriod) : s.pollGate.LightOk halfPeriod := by
  unfold Tasks.pollGate
  split
  · rename_i bd hg
    refine lightOk_congr h rfl fun hw => ?_
    rw [Tasks.controls, hg] at hw
    exact (woken_step s.light.await).poll (woken_boot _ _ _ _ hw)
  · rename_i t hg
    refine lightOk_congr h rfl fun hw => ?_
    rw [Tasks.controls, hg] at hw
    exact (woken_step s.light.await).poll hw

/-- A poll of the light keeps it in good order. -/
theorem lightOk_pollLight {s : Tasks} (h : s.LightOk halfPeriod) : s.pollLight.LightOk halfPeriod := by
  have hp := ok_poll h
  unfold Tasks.LightOk Tasks.pollLight
  cases hg : s.gate <;> rw [hg] at hp <;> exact hp

/-- Every event of the two tasks keeps the light in good order. -/
theorem lightOk_next {s : Tasks} (e : Tasks.Event) (h : s.LightOk halfPeriod) : (s.next e).LightOk halfPeriod := by
  cases e with
  | call c => exact lightOk_call c h
  | gate sleep lag => exact lightOk_pollGate (lightOk_wait sleep lag h)
  | light sleep lag => exact lightOk_pollLight (lightOk_wait sleep lag h)

/-- At first the lamp is low and the light is not to blink. -/
theorem lightOk_new (halfPeriod : Duration) (a b : MotorSettings) (locked : Bool) :
    (Tasks.new halfPeriod a b locked).LightOk halfPeriod where
  halfPeriod := rfl
  lit := rfl
  armed h := absurd h Bool.false_ne_true
  woken h := absurd h Bool.false_ne_true

/-- Every reachable state has the warning light in good order. -/
theorem lightOk_after (halfPeriod : Duration) (a b : MotorSettings) (locked : Bool) (events : List Tasks.Event) :
    (Tasks.after halfPeriod a b locked events).LightOk halfPeriod :=
  run_always (P := Tasks.LightOk halfPeriod) (fun _ e hs => lightOk_next e hs) (lightOk_new halfPeriod a b locked) events

end LightAux

/-- The warning light misses no movement and never sticks on. For every half period, after every run of calls and polls of the two
tasks in any order: (a) whenever the light is to blink, its task waits on its blink timer or has been signalled; (b) whenever the task
is parked on a signal that is not set, the lamp is low and the light is not to blink; (c) whenever the lamp is high, it was switched on
while the light was to blink, and the timer of the task is due exactly half a period after that moment. -/
theorem warning_light_follows (halfPeriod : Duration) (a b : MotorSettings) (locked : Bool) (events : List Tasks.Event) :
    let s := Tasks.after halfPeriod a b locked events
    (s.controls.warningLightActive = true →
      (∃ deadline, s.light.await = .timer deadline) ∨ s.controls.lightChanged ≠ none) ∧
    (s.light.await = .changed → s.controls.lightChanged = none →
      s.light.pin = false ∧ s.controls.warningLightActive = false) ∧
    (s.light.pin = true →
      ∃ w rest, s.light.writes = w :: rest ∧ w.SwitchesOn ∧ w.controls.warningLightActive = true ∧
        s.light.await = .timer (w.time + halfPeriod)) := by
  intro s
  have h : s.LightOk halfPeriod := lightOk_after halfPeriod a b locked events
  refine ⟨h.woken, fun hparked hsignal => ⟨?_, ?_⟩, fun hp => ?_⟩
  · by_contra hpin
    obtain ⟨w, rest, -, -, -, htimer⟩ := h.armed (by simpa using hpin)
    have hawait : s.light.await = _ := htimer
    rw [hparked] at hawait
    cases hawait
  · by_contra hactive
    obtain ⟨deadline, htimer⟩ | hs := h.woken (by simpa [Tasks.controls] using hactive)
    · have hawait : s.light.await = _ := htimer
      rw [hparked] at hawait
      cases hawait
    · exact hs hsignal
  · obtain ⟨w, rest, hw, hon, hactive, htimer⟩ := h.armed hp
    exact ⟨w, rest, hw, hon, hactive, by rw [← h.halfPeriod]; exact htimer⟩

end GateLink
