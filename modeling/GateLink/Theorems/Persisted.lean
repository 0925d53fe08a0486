import GateLink.Lemmas.Firmware

/-!
# What is in flash

If every save succeeds, the record in flash is the state of the gate whenever it rests with no signal left for it (`flash_at_rest`): a
change of the gate while its last state is being saved leaves a signal behind that makes it settle again. Not so while the gate moves: a
wind lock that changes then, or that itself sets the gate in motion, gets to flash when the movement settles and not before
(`wind_lock_not_in_flash`). It survives a power cut at any moment of a run exactly if every change of the wind lock is followed by a poll
that leaves no movement under way (`wind_lock_in_flash_iff`).

If saves fail, `saved` is what is in flash unless one of them left its record there (`skipped_write_sound_iff`).
-/

namespace GateLink

open Machine

/-- Notes whether a trip of the wind guard or a reset has changed the wind lock, and none has changed it back, since the gate was polled
last. -/
def Firmware.noteLock (f : Firmware) (changed : Bool) : Firmware.Event → Bool
  | .act a => a.call.locks.elim changed fun locked => changed ^^ (f.controls.windLocked ^^ locked)
  | .poll _ _ => if f.stage = .step then false else changed
  | .locked | .saveReturns _ => changed

/-- A poll after a change of the wind lock leaves no movement under way: it neither lets one go on nor starts one. -/
def Firmware.Halts (s : Firmware × Bool) : Firmware.Event → Prop
  | .poll sleep lag => s.1.stage = .step → s.2 = true → (s.1.task.wait sleep lag).Halts
  | _ => True

/-- With no command and no reset left for the gate, its wind lock is in flash, and a boot from there restores it. -/
def Firmware.Latched (f : Firmware) : Prop :=
  f.stage = .step → f.controls.command = none → f.controls.windLockReset = none →
    (Firmware.loaded f.flash).windLocked = f.controls.windLocked ∧
      ∀ restart a b, (Firmware.boot restart a b f.flash).controls.windLocked = f.controls.windLocked

/-- A save has failed with its record in flash since the last one that succeeded. -/
def Firmware.Spoiled (f : Firmware) : Prop := ∃ s ∈ f.saves.takeWhile (·.result ≠ .ok), s.result = .err true

namespace PersistedAux

open Firmware HaltsAux

/-! ## Saves that succeed -/

/-- `saved` is what is in flash, and the wind lock of the record is that of the gate, unless a change of it was noted, which has left a
signal behind. -/
structure Noted (f : Firmware) (changed : Bool) : Prop where
  saved : loaded f.flash = f.saved
  signalled : f.controls.Signalled f.record.windLocked
  changed : changed = (f.record.windLocked ^^ f.controls.windLocked)

/-- An action that changes the wind lock is noted. -/
theorem noted_act {f : Firmware} {changed : Bool} (h : Noted f changed) (a : Action) : Noted (f.act a) (f.noteLock changed (.act a)) := by
  show Noted (f.act a) (a.call.locks.elim changed fun locked => changed ^^ (f.controls.windLocked ^^ locked))
  obtain ⟨htask, hstage, hsaved, hflash, -⟩ := f.act_spec a
  have hrecord : (f.act a).record = f.record := by
    unfold record
    rw [hstage, hsaved]
  have hcontrols : (f.act a).controls = a.call.apply f.controls := congrArg (·.gate.controls) htask
  refine ⟨?_, ?_, ?_⟩
  · rw [hflash, hsaved]
    exact h.saved
  · rw [hrecord, hcontrols]
    exact h.signalled.call a.call
  · rw [hrecord, hcontrols, windLocked_call]
    cases a.call.locks with
    | none => exact h.changed
    | some locked =>
      show (changed ^^ (f.controls.windLocked ^^ locked)) = _
      rw [h.changed, Option.getD_some, Bool.xor_assoc, ← Bool.xor_assoc f.controls.windLocked, Bool.xor_self, Bool.false_xor]

/-- After a poll in `gate.step()` the wind lock is recorded: the step has settled, nothing was signalled, or there was no change to record. -/
theorem recorded_poll {f f' : Firmware} {changed : Bool} (h : Noted f changed) (hs : f.stage = .step) {sleep : Duration}
    {lag : Nat → Duration} (hhalts : changed = true → (f.task.wait sleep lag).Halts) (hp : f.Polled f' (f.task.wait sleep lag).poll) :
    f'.record.windLocked = f'.controls.windLocked := by
  obtain ⟨hsettled, hother⟩ := hp.record hs
  have hcontrols : f'.controls = (f.task.wait sleep lag).poll.gate.controls := congrArg (·.gate.controls) hp.task
  have hreturns := (f.task.wait sleep lag).poll_returns
  unfold Task.Returns at hreturns
  rw [hcontrols]
  split at hreturns
  · rename_i s ha
    rw [hsettled s ha, hreturns]
    rfl
  · rename_i ha
    have hn := Task.not_settled ha nofun
    have hsilent := ((f.task.wait sleep lag).poll_ends).resolve_left fun hends => hn hends.1
    unfold Task.Silent at hsilent
    rw [ha] at hsilent
    rw [hother hn]
    refine Controls.Signalled.exact ?_ hsilent.1 hsilent.2
    rw [hreturns.1]
    exact h.signalled
  · rename_i dr dl y ha
    have hlock : (f.task.wait sleep lag).poll.gate.controls.windLocked = f.controls.windLocked :=
      (windLocked_step f.controls.windLocked).poll (t := f.task.wait sleep lag) rfl
    have hunchanged : changed = false := by
      cases hc : changed with
      | false => rfl
      | true => exact absurd ha (Task.halts_poll (hhalts hc) dr dl y)
    rw [hother (Task.not_settled ha nofun), hlock]
    simpa [hunchanged] using h.changed

/-- A poll that lets no change of it go on records the lock. -/
theorem noted_poll {f : Firmware} {changed : Bool} (h : Noted f changed) {sleep : Duration} {lag : Nat → Duration}
    (he : Halts (f, changed) (.poll sleep lag)) : Noted (f.poll sleep lag) (f.noteLock changed (.poll sleep lag)) := by
  unfold Firmware.poll noteLock
  split
  · rename_i hs
    rw [if_pos hs]
    have hp := f.pollStep_spec sleep lag
    have hrecorded := recorded_poll h hs (he hs) hp
    refine ⟨?_, Or.inl hrecorded, ?_⟩
    · rw [hp.flash, hp.saved]
      exact h.saved
    · rw [hrecorded, Bool.xor_self]
  · rename_i hs
    rw [if_neg hs]
    exact h

/-- So every event keeps it, as long as saves succeed. -/
theorem noted_next (f : Firmware) (changed : Bool) (e : Firmware.Event) (he : e.Succeeds ∧ Halts (f, changed) e) (h : Noted f changed) :
    Noted (f.next e) (f.noteLock changed e) := by
  have hflash (hn : (∀ a, e ≠ .act a) ∧ ∀ sleep lag, e ≠ .poll sleep lag) : Noted (f.next e) changed := by
    obtain ⟨hsignalled, hchanged⟩ := record_rule (R := fun state t =>
      t.gate.controls.Signalled state.windLocked ∧ changed = (state.windLocked ^^ t.gate.controls.windLocked)) he.1
      ⟨h.signalled, h.changed⟩ (fun a ha => absurd ha (hn.1 a)) fun sleep lag _ hp => absurd hp (hn.2 sleep lag)
    exact ⟨loaded_next f e he.1 h.saved, hsignalled, hchanged⟩
  cases e with
  | act a => exact noted_act h a
  | poll sleep lag => exact noted_poll h he.2
  | locked => exact hflash ⟨nofun, nofun⟩
  | saveReturns result => exact hflash ⟨nofun, nofun⟩

/-- With it, the wind lock is in flash once the signals are taken. -/
theorem Noted.latched {f : Firmware} {changed : Bool} (h : Noted f changed) : f.Latched := by
  intro hs hc hr
  have hlock : f.record.windLocked = f.controls.windLocked := h.signalled.exact hc hr
  rw [record_step hs, ← h.saved] at hlock
  exact ⟨hlock, fun _ _ _ => hlock⟩

/-- A poll that leaves a movement under way leaves a change of the wind lock out of flash, with every signal taken. -/
theorem halts_of_latched {f : Firmware} {changed : Bool} {sleep : Duration} {lag : Nat → Duration} (h : Noted f changed)
    (hlatched : (f.poll sleep lag).Latched) : Halts (f, changed) (.poll sleep lag) := by
  intro hs hchanged
  by_contra hhalts
  obtain ⟨dr, dl, y, ha⟩ := Task.moving_poll hhalts
  have hn := Task.not_settled ha nofun
  have hpoll : f.poll sleep lag = f.pollStep sleep lag := by
    unfold Firmware.poll
    rw [hs]
  have hp := f.pollStep_spec sleep lag
  rw [hpoll] at hlatched
  have hstage : (f.pollStep sleep lag).stage = .step := by
    rcases hp.stage with ⟨s, hsettled, -⟩ | ⟨hstage, -⟩
    · exact absurd ⟨s, hsettled⟩ hn
    · exact hstage.trans hs
  have hcontrols : (f.pollStep sleep lag).controls = (f.task.wait sleep lag).poll.gate.controls := congrArg (·.gate.controls) hp.task
  have hsilent := ((f.task.wait sleep lag).poll_ends).resolve_left fun hends => hn hends.1
  unfold Task.Silent at hsilent
  rw [ha] at hsilent
  have hflash := (hlatched hstage (by rw [hcontrols]; exact hsilent.1) (by rw [hcontrols]; exact hsilent.2.2)).1
  have hlock : (f.task.wait sleep lag).poll.gate.controls.windLocked = f.controls.windLocked :=
    (windLocked_step f.controls.windLocked).poll (t := f.task.wait sleep lag) rfl
  rw [hp.flash, hcontrols, hlock, h.saved, ← record_step hs] at hflash
  have hxor := h.changed
  rw [hflash, Bool.xor_self] at hxor
  cases hxor.symm.trans hchanged

/-- An event keeps the wind lock in flash exactly if it lets no change of it go on. -/
theorem latched_next {f : Firmware} {changed : Bool} {e : Firmware.Event} (he : e.Succeeds) (h : Noted f changed) :
    (f.next e).Latched ↔ Halts (f, changed) e := by
  refine ⟨fun hlatched => ?_, fun hhalts => (noted_next f changed e ⟨he, hhalts⟩ h).latched⟩
  cases e with
  | poll sleep lag => exact halts_of_latched h hlatched
  | act | locked | saveReturns => trivial

/-- Leaf positions and wind lock are as recorded, unless a change of the wind lock has left a signal behind. -/
def Recorded (state : GateState) (g : Gate) : Prop :=
  state.leafAPosition = g.a.position ∧ state.leafBPosition = g.b.position ∧ g.controls.Signalled state.windLocked

/-- `saved` is what is in flash, and a gate at rest is as recorded. -/
def Resting (f : Firmware) : Prop := loaded f.flash = f.saved ∧ (Rests f.task → Recorded f.record f.task.gate)

/-- Every event keeps it, as long as saves succeed. -/
theorem resting_next (f : Firmware) (e : Firmware.Event) (he : e.Succeeds) (h : Resting f) : Resting (f.next e) := by
  refine ⟨loaded_next f e he h.1, ?_⟩
  refine record_rule (R := fun state t => Rests t → Recorded state t.gate) he h.2 (fun a _ hrests => ?_) ?_
  · obtain ⟨ha, hb, hl⟩ := h.2 hrests
    exact ⟨ha, hb, hl.call a.call⟩
  · rintro sleep lag state - hs hsettled hother hrests
    have hreturns := (f.task.wait sleep lag).poll_returns
    unfold Task.Returns at hreturns
    split at hreturns
    · rename_i s ha
      rw [hsettled s ha, hreturns]
      exact ⟨rfl, rfl, Or.inl rfl⟩
    · rename_i ha
      rw [hother (Task.not_settled ha nofun), hreturns.1]
      exact h.2 hreturns.2
    · rename_i dr dl y ha
      exact absurd ha (hrests dr dl y)

/-- At rest, the state of the gate is in flash, and a boot restores it. -/
theorem resting_restored {f : Firmware} {a b : MotorSettings} (h : Resting f) (hs : f.stage = .step) (hidle : f.task.await = .idle)
    (hc : f.controls.command = none) (hr : f.controls.windLockReset = none) :
    loaded f.flash = toGateState f.task.gate.snapshot ∧
      ∀ restart, (Firmware.boot restart a b f.flash).task.gate.snapshot = f.task.gate.snapshot := by
  obtain ⟨ha, hb, hl⟩ := h.2 (by rw [Rests, hidle]; nofun)
  have hlock : f.record.windLocked = f.controls.windLocked := hl.exact hc hr
  rw [record_step hs, ← h.1] at ha hb hlock
  have hloaded : loaded f.flash = toGateState f.task.gate.snapshot := by
    cases hf : loaded f.flash
    rw [hf] at ha hb hlock
    cases ha
    cases hb
    cases hlock
    rfl
  refine ⟨hloaded, fun restart => ?_⟩
  have hboot : toGateState (Firmware.boot restart a b f.flash).task.gate.snapshot = loaded f.flash := rfl
  rw [hloaded] at hboot
  exact toGateState_injective hboot

/-! ## Saves that fail -/

/-- A save that fails with its record in flash spoils it, and one that succeeds ends that. -/
theorem spoiled_cons {f f' : Firmware} {s : Save} (h : f'.saves = s :: f.saves) :
    f'.Spoiled ↔ s.result ≠ .ok ∧ (s.result = .err true ∨ f.Spoiled) := by
  unfold Spoiled
  rw [h, List.takeWhile_cons]
  by_cases hok : s.result = .ok <;> simp [hok]

/-- `saved` is what is in flash unless a save that failed left its record there, and only a state other than `saved` is written. -/
def Mirrored (f : Firmware) : Prop :=
  (loaded f.flash = f.saved ↔ ¬f.Spoiled) ∧
    match f.stage with
    | .step => True
    | .lock state | .save state => state ≠ f.saved

/-- What is known of the flash depends on nothing else. -/
theorem Mirrored.congr {f f' : Firmware} (h : Mirrored f) (hflash : f'.flash = f.flash) (hsaved : f'.saved = f.saved)
    (hsaves : f'.saves = f.saves) (hstage : f'.stage = f.stage) : Mirrored f' := by
  unfold Mirrored Spoiled at h ⊢
  rw [hflash, hsaved, hsaves, hstage]
  exact h

/-- Every event keeps it, whatever becomes of the saves. -/
theorem mirrored_next (f : Firmware) (e : Firmware.Event) (h : Mirrored f) : Mirrored (f.next e) := by
  cases e with
  | act a =>
    obtain ⟨-, hstage, hsaved, hflash, hsaves⟩ := f.act_spec a
    exact h.congr hflash hsaved hsaves hstage
  | poll sleep lag =>
    refine poll_rule (P := Mirrored) h fun hs f' hp => ?_
    rcases hp.stage with ⟨s, -, hne, hlock⟩ | ⟨hstage, -⟩
    · refine ⟨?_, ?_⟩
      · unfold Spoiled
        rw [hp.flash, hp.saved, hp.saves]
        exact h.1
      · rw [hlock, hp.saved]
        exact hne
    · exact h.congr hp.flash hp.saved hp.saves hstage
  | locked =>
    show Mirrored f.locked
    unfold locked
    split
    · rename_i state hs
      unfold Mirrored at h
      rw [hs] at h
      exact h
    · exact h
  | saveReturns result =>
    show Mirrored (f.saveReturns result)
    unfold saveReturns
    split
    · rename_i state hs
      unfold Mirrored at h
      rw [hs] at h
      cases result with
      | ok =>
        refine ⟨?_, trivial⟩
        rw [spoiled_cons (f := f) rfl]
        simp [loaded]
      | err written =>
        cases written with
        | true =>
          refine ⟨?_, trivial⟩
          rw [spoiled_cons (f := f) rfl]
          simp [loaded, h.2]
        | false =>
          refine ⟨?_, trivial⟩
          rw [spoiled_cons (f := f) rfl]
          simpa using h.1
    · exact h

/-! ## Runs of the installation -/

/-- The wind guard trips while the gate is at rest, and sets it in motion. -/
def trip : List Firmware.Event := [.act (.input .windTrigger), .poll 0 steady, .poll (fromSecs 1) steady]

/-- A boot with the gate open and the wind lock engaged: the wind lock is reset, which is saved. -/
def unlocked : List Firmware.Event :=
  [.poll 0 steady, .act (.input .resetWindLock), .poll 0 steady, .locked, .saveReturns .ok, .poll 0 steady]

/-- The gate opens, and its state is saved. -/
def opened : List Firmware.Event :=
  [.act (.execute .open), .poll 0 steady, .poll (fromSecs 3) steady, .poll (fromSecs 13) steady, .poll (fromSecs 3) steady, .locked,
    .saveReturns .ok, .poll 0 steady]

/-- The gate opens, and the save fails with the new record in flash; then the gate closes, up to the poll that settles. -/
def openedAndClosing : List Firmware.Event :=
  [.act (.execute .open), .poll 0 steady, .poll (fromSecs 3) steady, .poll (fromSecs 13) steady, .poll (fromSecs 3) steady, .locked,
    .saveReturns (.err true), .act (.execute .close), .poll 0 steady, .poll (fromSecs 6) steady]

end PersistedAux

open PersistedAux

/-- In every run in which every save succeeds, the wind lock is in flash in every state in which the gate is suspended with no command and
no reset left for it, and a boot from there restores it, if and only if every poll after a change of the wind lock leaves no movement
under way. -/
theorem wind_lock_in_flash_iff (early : List Action) (a b : MotorSettings) (flash : Option GateState) (events : List Firmware.Event)
    (hsaves : ∀ e ∈ events, e.Succeeds) :
    (∀ before later, events = before ++ later → (Firmware.after early a b flash before).Latched) ↔
      Allowed (noting Firmware.next Firmware.noteLock) Firmware.Halts (Firmware.boot early a b flash, false) events := by
  have hboot : Noted (Firmware.boot early a b flash) false := ⟨rfl, Or.inl rfl, (Bool.xor_self _).symm⟩
  exact forall_prefix_iff_allowed_noting noted_next (fun _ _ _ he h _ => latched_next he h) hboot.latched hboot hsaves

/-- The wind guard trips at rest and the gate opens: the wind lock is not in flash. -/
theorem wind_lock_not_in_flash :
    (∀ e ∈ trip, e.Succeeds) ∧ (Firmware.installed trip).Quiet ∧
      (Firmware.loaded (Firmware.installed trip).flash).windLocked ≠ (Firmware.installed trip).controls.windLocked := by
  have hwaits : (Firmware.installed trip).task.await =
      .moving ⟨.opening, .running (fromSecs 16), .waiting (fromSecs 3), true⟩ (fromSecs 3) true := by decide +kernel
  refine ⟨by simp [trip, Firmware.Event.Succeeds], ?_, by decide +kernel⟩
  exact ⟨by decide +kernel, Or.inr ⟨_, _, _, hwaits⟩, by decide +kernel, by decide +kernel, by decide +kernel⟩

/-- A wind lock that is reset at rest is saved. -/
theorem wind_lock_in_flash_reset :
    let f := Firmware.after [] (settingsOf leafA 0) (settingsOf leafB 0) (some ⟨255, 255, true⟩) unlocked
    f.controls.windLocked = false ∧ (Firmware.loaded f.flash).windLocked = f.controls.windLocked := by
  have hhalts : Allowed (noting Firmware.next Firmware.noteLock) Firmware.Halts
      (Firmware.boot [] (settingsOf leafA 0) (settingsOf leafB 0) (some ⟨255, 255, true⟩), false) unlocked := by
    refine ⟨fun _ hchanged => absurd hchanged (by decide +kernel), trivial, fun _ _ => ?_, trivial, trivial,
      fun _ hchanged => absurd hchanged (by decide +kernel), trivial⟩
    intro c hc
    cases hc
  have h := (wind_lock_in_flash_iff [] (settingsOf leafA 0) (settingsOf leafB 0) (some ⟨255, 255, true⟩) unlocked
    (by simp [unlocked, Firmware.Event.Succeeds])).mpr hhalts unlocked [] (List.append_nil _).symm
  exact ⟨by decide +kernel, (h (by decide +kernel) (by decide +kernel) (by decide +kernel)).1⟩

/-- At rest, flash equals reality, in every run in which every save succeeds: whenever the gate waits for its next command, with none in
the slot and no reset signalled, the record in flash is its state, and a boot from there restores it. -/
theorem flash_at_rest (early : List Action) (a b : MotorSettings) (flash : Option GateState) (events : List Firmware.Event)
    (hsaves : ∀ e ∈ events, e.Succeeds) :
    let f := Firmware.after early a b flash events
    f.stage = .step → f.task.await = .idle → f.controls.command = none → f.controls.windLockReset = none →
      Firmware.loaded f.flash = toGateState f.task.gate.snapshot ∧
        ∀ restart, (Firmware.boot restart a b f.flash).task.gate.snapshot = f.task.gate.snapshot := by
  intro f hs hidle hc hr
  have hresting : Resting f :=
    run_invariant resting_next ⟨rfl, fun _ => ⟨rfl, rfl, Or.inl rfl⟩⟩ (allowed_of_forall hsaves _)
  exact resting_restored hresting hs hidle hc hr

/-- The gate has opened, and rests. -/
theorem flash_at_rest_opened :
    Firmware.loaded (Firmware.installed opened).flash = toGateState (Firmware.installed opened).task.gate.snapshot :=
  (flash_at_rest [] (settingsOf leafA 0) (settingsOf leafB 0) none opened (by simp [opened, Firmware.Event.Succeeds])
    (by decide +kernel) (by decide +kernel) (by decide +kernel) (by decide +kernel)).1

/-- A write is skipped, the state of a step being `saved`: in every run, the record in flash is that state if and only if no save has
failed with its record in flash since the last save that succeeded. -/
theorem skipped_write_sound_iff (early : List Action) (a b : MotorSettings) (flash : Option GateState) (events : List Firmware.Event)
    (sleep : Duration) (lag : Nat → Duration) (s : Snapshot) :
    let f := Firmware.after early a b flash events
    let f' := f.next (.poll sleep lag)
    f.stage = .step → f'.task.await = .settled s → toGateState s = f.saved →
      (Firmware.loaded f'.flash = toGateState s ↔ ¬f.Spoiled) := by
  intro f f' hs _ hskip
  have hboot : Mirrored (Firmware.boot early a b flash) :=
    ⟨iff_of_true rfl fun ⟨_, hmem, _⟩ => absurd hmem List.not_mem_nil, trivial⟩
  have hmirrored : Mirrored f := run_always mirrored_next hboot _
  have hflash : f'.flash = f.flash := Firmware.poll_rule (P := fun f' => f'.flash = f.flash) rfl fun _ _ hp => hp.flash
  rw [hflash, hskip]
  exact hmirrored.1

/-- The write of the closed gate is skipped while the record in flash is that of the open one. -/
theorem skipped_write_unsound :
    let f := Firmware.installed openedAndClosing
    let f' := f.next (.poll (fromSecs 16) steady)
    f.stage = .step ∧ f'.task.await = .settled ⟨0, 0, false⟩ ∧ toGateState ⟨0, 0, false⟩ = f.saved ∧
      Firmware.loaded f'.flash = ⟨255, 255, false⟩ := by decide +kernel

/-- A CLOSE of the closed gate is not written. -/
theorem skipped_write_sound_closed :
    let f := Firmware.installed [.act (.execute .close)]
    Firmware.loaded (f.next (.poll 0 steady)).flash = toGateState ⟨0, 0, false⟩ :=
  (skipped_write_sound_iff [] (settingsOf leafA 0) (settingsOf leafB 0) none [.act (.execute .close)] 0 steady ⟨0, 0, false⟩
    (by decide +kernel) (by decide +kernel) (by decide +kernel)).mpr fun ⟨_, hmem, _⟩ => absurd hmem List.not_mem_nil

end GateLink
