import GateLink.Life
import GateLink.Theorems.Loss
import GateLink.Theorems.Persisted

/-!
# What lasts

The theorems about the gate and the connection are about one boot. Over a life of boots and power cuts, every configuration in flash comes
of a form that was submitted and accepted, and a device in station mode is one that runs on it (`life_configured`); a boot comes to station
mode exactly if there is a configuration (`station_iff_configured`); and the boot button has it erased if it is held, and not otherwise
(`erases_iff_held`). If its record is always read and saved, a gate at rest is where it was after a power cut (`rest_survives`).
-/

namespace GateLink

open Machine

/-- The event reads the record of the gate, if it loads it, and saves it, if it is the end of a save. -/
def Life.Event.Keeps : Life.Event → Prop
  | .load _ stateReads _ => stateReads = true
  | .device (.saveReturns result) => result = .ok
  | _ => True

namespace LifeAux

open Life

variable {P : AppConfig → Prop} {a b : MotorSettings} {l : Life}

/-! ## The configuration -/

/-- The configuration that a mode works with, or is to save. -/
def configOf : Mode → Option AppConfig
  | .station cfg | .provisioning (.locking cfg) | .provisioning (.saving cfg) => some cfg
  | .provisioning (.waiting submitted) => submitted
  | .provisioning .resetting | .localControl => none

/-- The configuration, if there is one, has the property. -/
def Known (P : AppConfig → Prop) (o : Option AppConfig) : Prop := ∀ c, o = some c → P c

/-- Where there is no configuration, there is none without the property. -/
theorem known_none : Known P none := nofun

/-- The one configuration there is has the property. -/
theorem known_some {c : AppConfig} (h : P c) : Known P (some c) := by
  rintro _ ⟨⟩
  exact h

/-- A save leaves the old one or the new one. -/
theorem known_leaves {result : SaveResult} {old new : Option AppConfig} (hold : Known P old) (hnew : Known P new) :
    Known P (result.leaves old new) := by
  cases result with
  | ok => exact hnew
  | err written => cases written <;> assumption

/-- The configurations in flash and in the mode have the property, and the device has come from a boot in that mode. -/
structure Lasts (P : AppConfig → Prop) (a b : MotorSettings) (l : Life) : Prop where
  config : Known P l.flash.config
  boot : ∀ mode d, l.boot = .running mode d →
    Known P (configOf mode) ∧ ∃ record events, d = Device.after mode.credentials a b record events

/-- In provisioning mode, the same device at another place of `run_provisioning_mode`. -/
theorem Lasts.setup {l' : Life} {setup setup' : Setup} {d : Device} (h : Lasts P a b l)
    (hb : l.boot = .running (.provisioning setup) d) (hb' : l'.boot = .running (.provisioning setup') d)
    (hconfig : Known P l'.flash.config) (hsetup : Known P (configOf (.provisioning setup'))) : Lasts P a b l' := by
  refine ⟨hconfig, fun mode d' hrun => ?_⟩
  obtain ⟨rfl, rfl⟩ := Boot.running.inj (hb'.symm.trans hrun)
  exact ⟨hsetup, (h.boot _ _ hb).2⟩

/-- A configuration that was submitted has it, if every accepted form gives one that has. -/
theorem known_submit {setup : Setup} {form : SubmittedForm} (hform : ∀ c, form.intoConfig = .ok c → P c)
    (h : Known P (configOf (.provisioning setup))) : Known P (configOf (.provisioning (submit form setup))) := by
  unfold submit
  split
  · split
    · rename_i cfg hcfg
      exact known_some (hform cfg hcfg)
    · exact h
  · exact h

/-- A cut of the power leaves what was there, or what was being written. -/
theorem known_interrupted (h : Lasts P a b l) (written : Bool) : Known P (l.interrupted written).config := by
  unfold interrupted
  split
  · exact known_leaves h.config known_none
  · rename_i hb
    exact known_leaves h.config (h.boot _ _ hb).1
  · split <;> exact h.config
  · exact h.config
  · exact h.config

/-- The tasks are started in a mode that works with what was read. -/
theorem lasts_start {config : Option AppConfig} (hread : Known P config) (gateState : Option GateState) (radio : Bool)
    {mode : Mode} {d : Device} (h : start a b config gateState radio = .running mode d) :
    Known P (configOf mode) ∧ ∃ record events, d = Device.after mode.credentials a b record events := by
  unfold start at h
  obtain ⟨rfl, rfl⟩ := Boot.running.inj h
  refine ⟨?_, gateState, [], rfl⟩
  split
  · split
    · split
      · exact hread
      · exact known_none
    · exact known_none
  · exact known_none

/-- Every event of the life keeps it. -/
theorem lasts_next (l : Life) (e : Life.Event) (he : ∀ form c, e = .submit form → form.intoConfig = .ok c → P c)
    (h : Lasts P a b l) : Lasts P a b (l.next a b e) := by
  unfold next
  split
  · -- the boot button is sampled
    refine ⟨h.config, fun mode d hrun => ?_⟩
    unfold sample at hrun
    split at hrun
    · split at hrun <;> exact Boot.noConfusion hrun
    · exact Boot.noConfusion hrun
  · exact ⟨known_leaves h.config known_none, fun _ _ hrun => Boot.noConfusion hrun⟩
  · -- the records are loaded
    refine ⟨h.config, fun mode d hrun => lasts_start ?_ _ _ hrun⟩
    split
    · exact h.config
    · exact known_none
  · rename_i e mode d hb
    split
    · obtain ⟨hmode, record, events, rfl⟩ := h.boot _ _ hb
      refine ⟨h.config, ?_⟩
      intro _ _ hrunning
      obtain ⟨rfl, rfl⟩ := Boot.running.inj hrunning
      exact ⟨hmode, record, events ++ [e], (run_append Device.next _ events [e]).symm⟩
    · exact h
  · rename_i form setup d hb
    exact h.setup hb rfl h.config (known_submit (fun c hc => he form c rfl hc) (h.boot _ _ hb).1)
  · rename_i cfg d hb
    exact h.setup hb rfl h.config (h.boot _ _ hb).1
  · rename_i cfg d hb
    split
    · exact h.setup hb rfl h.config (h.boot _ _ hb).1
    · exact h
  · rename_i result cfg d hb
    exact h.setup hb rfl (known_leaves h.config (h.boot _ _ hb).1) known_none
  · exact ⟨known_interrupted h _, fun _ _ hrun => Boot.noConfusion hrun⟩
  · exact h

/-- What holds of every configuration that was there, or is accepted on the way, holds of what a life works with. -/
theorem lasts_after {flash : Flash} {events : List Life.Event} (hflash : Known P flash.config)
    (hevents : ∀ form, .submit form ∈ events → ∀ c, form.intoConfig = .ok c → P c) :
    Lasts P a b (Life.after a b flash events) := by
  have hallowed : Allowed (next a b) (fun _ e => ∀ form c, e = .submit form → form.intoConfig = .ok c → P c)
      { flash := flash, boot := .button 0 0 } events := by
    refine allowed_of_forall (fun e hmem => ?_) _
    rintro form c rfl hc
    exact hevents form hmem c hc
  exact run_invariant lasts_next ⟨hflash, fun _ _ hrun => Boot.noConfusion hrun⟩ hallowed

/-- A form with no SSID is not accepted. -/
theorem ssid_of_ok {form : SubmittedForm} {c : AppConfig} (h : form.intoConfig = .ok c) : c.wifiSsid ≠ "" := by
  unfold SubmittedForm.intoConfig at h
  split_ifs at h with hssid
  obtain rfl := Except.ok.inj h
  exact hssid

/-- The first life of a device: it is set up with the usual form, and resets. -/
def setUp : List Life.Event :=
  [.sample false 0, .load true true true, .submit usualForm, .taken, .locked, .saved .ok, .reset true, .sample false 0]

/-! ## The boot button -/

/-- Samples of the button, each with how much later than the interval the next one comes. -/
def samples (readings : List (Bool × Duration)) : List Life.Event := readings.map fun r => .sample r.1 r.2

/-- How long these readings take. -/
def span (readings : List (Bool × Duration)) : Duration := (readings.map fun r => pollInterval + r.2).sum

open Device PersistedAux

variable {d : Device}

/-- The record in flash, as the gate task knows it. -/
def recordOf : FirmwareTask → Option GateState
  | .spawned _ _ flash _ => flash
  | .running f => f.flash

/-- What leaves the flash of the firmware alone leaves the record alone. -/
theorem recordOf_map {step : Firmware → Firmware} (hstep : ∀ f, (step f).flash = f.flash) (g : FirmwareTask) :
    recordOf (g.map step) = recordOf g := by
  cases g with
  | spawned => rfl
  | running f => exact hstep f

/-- An action leaves the record alone. -/
theorem recordOf_actedGate (g : FirmwareTask) (x : Option Action) : recordOf (actedGate g x) = recordOf g := by
  cases x with
  | none => rfl
  | some x =>
    cases g with
    | spawned => rfl
    | running f => exact (f.act_spec x).2.2.2.1

/-- A poll of the gate task leaves the record alone. -/
theorem recordOf_polled (g : FirmwareTask) (sleep : Duration) (lag : Nat → Duration) : (polled g sleep lag).1.flash = recordOf g := by
  cases g with
  | spawned => rfl
  | running f => exact Firmware.poll_rule (P := fun f' => f'.flash = f.flash) rfl fun _ _ hp => hp.flash

/-- Locking the flash changes nothing in it. -/
theorem locked_flash (f : Firmware) : f.locked.flash = f.flash := by
  unfold Firmware.locked
  split <;> rfl

/-- A save that returns leaves in flash what it has written. -/
theorem recordOf_saveReturns (hidle : d.Idle) (result : SaveResult) :
    recordOf (d.gate.map (Firmware.saveReturns · result)) = d.leaves (.saveReturns result) (recordOf d.gate) := by
  unfold leaves saving
  cases hg : d.gate with
  | spawned => rfl
  | running f =>
    show (f.saveReturns result).flash = _
    unfold Firmware.saveReturns
    cases hs : f.stage with
    | step => simp [hs, recordOf]
    | lock state => simp [hs, recordOf]
    | save state =>
      cases result with
      | ok => simp [hs, hidle, SaveResult.leaves]
      | err written => cases written <;> simp [hs, hidle, recordOf, SaveResult.leaves]

/-- So the record changes only with what the events leave in flash. -/
theorem recordOf_next (d : Device) (e : Device.Event) : recordOf (d.next e).gate = d.leaves e (recordOf d.gate) := by
  have hother (h : ∀ result, e ≠ .saveReturns result) : d.leaves e (recordOf d.gate) = recordOf d.gate := by
    unfold leaves
    split
    · exact absurd rfl (h _)
    · rfl
  rw [gate_next]
  split
  · rename_i hidle
    cases e with
    | pollGate sleep lag => exact recordOf_polled d.gate sleep lag
    | locked => exact recordOf_map locked_flash d.gate
    | saveReturns result => exact recordOf_saveReturns hidle result
    | sampleButton | readBarrier | handle => exact recordOf_actedGate _ _
    | discover =>
      show recordOf (if d.mqtt.connected = some () then d.gate.map Firmware.publishState else d.gate) = recordOf d.gate
      split
      · have hpublish (f : Firmware) : f.publishState.flash = f.flash := rfl
        exact recordOf_map hpublish d.gate
      · rfl
    | sleep | wake | step => rfl
  · rename_i hidle
    unfold leaves
    split
    · exact (if_neg hidle).symm
    · rfl

/-- The gate task knows what is in flash, and a gate at rest is as recorded. -/
def Kept (a b : MotorSettings) (l : Life) : Prop :=
  ∀ mode d, l.boot = .running mode d → recordOf d.gate = l.flash.gateState ∧ ∃ record, Runs a b record Resting d.gate

/-- In provisioning mode, the same device with the same record. -/
theorem Kept.setup {l' : Life} {setup setup' : Setup} (h : Kept a b l) (hb : l.boot = .running (.provisioning setup) d)
    (hb' : l'.boot = .running (.provisioning setup') d) (hflash : l'.flash.gateState = l.flash.gateState) : Kept a b l' := by
  intro _ _ hrun
  obtain ⟨-, rfl⟩ := Boot.running.inj (hb'.symm.trans hrun)
  rw [hflash]
  exact h _ _ hb

/-- Every event keeps it, if its saves succeed and its boots can read the record. -/
theorem kept_next (l : Life) (e : Life.Event) (he : e.Keeps) (h : Kept a b l) : Kept a b (l.next a b e) := by
  unfold Life.next
  split
  · -- the boot button is sampled
    intro mode d hrun
    unfold sample at hrun
    split at hrun
    · split at hrun <;> exact Boot.noConfusion hrun
    · exact Boot.noConfusion hrun
  · exact fun _ _ hrun => Boot.noConfusion hrun
  · -- the records are loaded, and that of the gate is read
    intro mode d hrun
    unfold start at hrun
    obtain ⟨-, rfl⟩ := Boot.running.inj hrun
    refine ⟨?_, _, rfl, rfl, rfl⟩
    exact if_pos he
  · rename_i e mode d hb
    obtain ⟨hrecord, record, hruns⟩ := h _ _ hb
    split
    · intro _ _ hrun
      obtain ⟨-, rfl⟩ := Boot.running.inj hrun
      refine ⟨(recordOf_next d e).trans (congrArg _ hrecord), record, ?_⟩
      refine runs_next (fun _ => ⟨rfl, fun _ => ⟨rfl, rfl, Or.inl rfl⟩⟩) resting_next
        (fun _ hf => hf) (fun _ _ => trivial) (fun _ => trivial) ?_ (fun _ _ _ _ _ => trivial) hruns
      rintro f result rfl
      exact he
    · exact h
  · rename_i hb
    exact h.setup hb rfl rfl
  · rename_i hb
    exact h.setup hb rfl rfl
  · rename_i hb
    split
    · exact h.setup hb rfl rfl
    · exact h
  · rename_i hb
    exact h.setup hb rfl rfl
  · exact fun _ _ hrun => Boot.noConfusion hrun
  · exact h

/-- With no save under way, a cut of the power leaves the record as it is. -/
theorem interrupted_gateState {mode : Mode} (hb : l.boot = .running mode d) (hsaving : d.saving = none) (written : Bool) :
    (l.interrupted written).gateState = l.flash.gateState := by
  unfold interrupted
  split
  · rfl
  · rfl
  · rename_i hrun
    obtain ⟨-, rfl⟩ := Boot.running.inj (hb.symm.trans hrun)
    rw [hsaving]
  · rfl
  · rfl

/-- With no configuration, the gate is opened with the push button; its state is saved, and it rests. -/
def opening : List Device.Event :=
  .pollGate 0 steady :: List.replicate 5 (.sampleButton .pushButton true) ++
    [.pollGate 0 steady, .pollGate (fromSecs 3) steady, .pollGate (fromSecs 13) steady, .pollGate (fromSecs 3) steady, .locked,
      .saveReturns .ok, .pollGate 0 steady]

/-- The first boot of a device on which the gate is opened. -/
def openedFirst : List Life.Event := .sample false 0 :: .load true true true :: opening.map .device

end LifeAux

open LifeAux LossAux PersistedAux

/-- Where the configurations come from, over every life: one in flash was there at first or comes of a form that was submitted and accepted;
so does the one that a device in station mode works with, and that device is one after boot and a run of events. -/
theorem life_configured (a b : MotorSettings) (flash : Flash) (events : List Life.Event) :
    let l := Life.after a b flash events
    let Comes (c : AppConfig) := flash.config = some c ∨ ∃ form, .submit form ∈ events ∧ form.intoConfig = .ok c
    (∀ c, l.flash.config = some c → Comes c) ∧
      ∀ c d, l.boot = .running (.station c) d → Comes c ∧ ∃ record events, d = Device.after c.credentials a b record events := by
  intro l Comes
  have hlasts : Lasts Comes a b l := lasts_after (fun c hc => Or.inl hc) fun form hmem c hc => Or.inr ⟨form, hmem, hc⟩
  refine ⟨hlasts.config, fun c d hb => ?_⟩
  obtain ⟨hmode, hrun⟩ := hlasts.boot _ _ hb
  exact ⟨hmode c rfl, hrun⟩

/-- Where a boot comes to, over every life that starts with no configuration or an accepted one: with the radio, it comes to station mode
exactly on the configuration that is read from flash, and to the form if there is none. -/
theorem station_iff_configured (a b : MotorSettings) {flash : Flash}
    (hflash : ∀ c, flash.config = some c → ∃ form : SubmittedForm, form.intoConfig = .ok c) (events : List Life.Event)
    (configReads stateReads : Bool) :
    let l := Life.after a b flash events
    let l' := l.next a b (.load configReads stateReads true)
    l.boot = .loading →
      ((∃ d, l'.boot = .running (.provisioning (.waiting none)) d) ↔ l.flash.config = none ∨ configReads = false) ∧
        ∀ c, (∃ d, l'.boot = .running (.station c) d) ↔ l.flash.config = some c ∧ configReads = true := by
  intro l l' hb
  have hlasts : Lasts (fun c => ∃ form : SubmittedForm, form.intoConfig = .ok c) a b l :=
    lasts_after hflash fun form _ c hc => ⟨form, hc⟩
  have hnext : l'.boot =
      Life.start a b (if configReads then l.flash.config else none) (if stateReads then l.flash.gateState else none) true := by
    simp [l', Life.next, hb]
  rw [hnext]
  cases configReads with
  | false => simp [Life.start]
  | true =>
    cases hc : l.flash.config with
    | none => simp [Life.start]
    | some c =>
      obtain ⟨form, hform⟩ := hlasts.config c hc
      have hssid : c.wifiSsid ≠ "" := ssid_of_ok hform
      simp [Life.start, hssid]

/-- A new device is set up, and comes to station mode. -/
theorem station_iff_configured_set_up :
    ∃ d, ((Life.after (settingsOf leafA 0) (settingsOf leafB 0) ⟨none, none⟩ setUp).next (settingsOf leafA 0) (settingsOf leafB 0)
      (.load true true true)).boot = .running (.station usualConfig) d := by
  have hconfig : (Life.after (settingsOf leafA 0) (settingsOf leafB 0) ⟨none, none⟩ setUp).flash.config = some usualConfig := by
    decide +kernel
  have hstation := @station_iff_configured (settingsOf leafA 0) (settingsOf leafB 0) ⟨none, none⟩ nofun setUp true true rfl
  exact (hstation.2 usualConfig).mpr ⟨hconfig, rfl⟩

/-- A gate at rest is where it was after the power is cut, in every life in which every save of its record succeeds and every boot can read
it: whenever it waits for its next command, with none in the slot and no reset signalled, a boot from what a power cut leaves in flash
restores its state. -/
theorem rest_survives (a b : MotorSettings) (flash : Flash) (events : List Life.Event) (hkeeps : ∀ e ∈ events, e.Keeps)
    {mode : Mode} {d : Device} {f : Firmware} (written : Bool) (restart : List Action) :
    let l := Life.after a b flash events
    l.boot = .running mode d → d.gate = .running f → f.stage = .step → f.task.await = .idle → f.controls.command = none →
      f.controls.windLockReset = none →
        (Firmware.boot restart a b (l.next a b (.reset written)).flash.gateState).task.gate.snapshot = f.task.gate.snapshot := by
  intro l hb hg hs hidle hc hr
  have hkept : Kept a b l := run_invariant kept_next (fun _ _ hrun => Boot.noConfusion hrun) (allowed_of_forall hkeeps _)
  obtain ⟨hrecord, record, hruns⟩ := hkept _ _ hb
  rw [hg] at hrecord hruns
  have hsaving : d.saving = none := by simp [Device.saving, hg, hs]
  have hflash : (l.next a b (.reset written)).flash.gateState = f.flash := by
    have hleft := (interrupted_gateState hb hsaving written).trans hrecord.symm
    rw [← show (l.next a b (.reset written)).flash = l.interrupted written by simp [Life.next]] at hleft
    exact hleft
  rw [hflash]
  exact (resting_restored hruns hs hidle hc hr).2 restart

/-- The gate is opened, and open after the power is cut. -/
theorem rest_survives_opened :
    (Firmware.boot [] (settingsOf leafA 0) (settingsOf leafB 0)
      ((Life.after (settingsOf leafA 0) (settingsOf leafB 0) ⟨none, none⟩ openedFirst).next (settingsOf leafA 0) (settingsOf leafB 0)
        (.reset false)).flash.gateState).task.gate.snapshot = ⟨255, 255, false⟩ := by
  have hkeeps : ∀ e ∈ openedFirst, e.Keeps := by simp [openedFirst, opening, Life.Event.Keeps]
  have hrest := rest_survives (settingsOf leafA 0) (settingsOf leafB 0) ⟨none, none⟩ openedFirst hkeeps false [] rfl rfl
  exact (hrest (by decide +kernel) (by decide +kernel) (by decide +kernel) (by decide +kernel)).trans (by decide +kernel)

end GateLink
