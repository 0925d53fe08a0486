import GateLink.Lemmas.Device
import GateLink.Theorems.Causes
import GateLink.Theorems.Safety

/-!
# From the pins to the relays

What the gate controller guarantees is about its controls; between them and the pins of the inputs are the watchers. The flags of the light
barriers are the levels read last (`PinsFollowed`), so that no relay works against what the pins say for longer than until the gate task runs
(`pins_guard_relays`). And a debouncer takes five samples for a press, so that noise on the pins of the buttons does not move the gate
(`movements_paid`).
-/

namespace GateLink

open Machine

namespace Device

/-- The last reading of a barrier has found it interrupted. -/
def Interrupted (d : Device) (barrier : Barrier) : Prop := d.lastActive barrier = some true

/-- The last reading decides it. -/
instance (d : Device) (barrier : Barrier) : Decidable (d.Interrupted barrier) := inferInstanceAs (Decidable (_ = _))

/-- The barriers, as they were read last, or the wind lock, are against a movement. -/
def Against (d : Device) (direction : Direction) : Prop :=
  d.controls.barrierBypass = false ∧ (d.Interrupted .lightBarrier1 ∨ direction = .closing ∧ d.Interrupted .lightBarrier2) ∨
    direction = .closing ∧ d.controls.windLocked = true

/-- The last readings and the wind lock decide it. -/
instance (d : Device) (direction : Direction) : Decidable (d.Against direction) := inferInstanceAs (Decidable (_ ∨ _))

/-- The level of a relay. They are all released until the gate task runs. -/
def level (d : Device) (p : Pin) : Bool :=
  match d.gate with
  | .spawned _ _ _ _ => false
  | .running f => f.task.gate.board.levels p

/-- The movements that the gate has started. -/
def movements (d : Device) : Nat :=
  match d.gate with
  | .spawned _ _ _ _ => 0
  | .running f => f.task.gate.movements

end Device

/-- A press of the button can make the gate move. -/
def Button.moves : Button → Bool
  | .pushButton | .radioButton | .windSensor => true
  | .windReset | .barrierBypassButton => false

/-- What an event pays for movements, in fifths of a movement: one for a sample of a button that finds it pressed, and five for a message
or a change of a barrier that can make the gate move. -/
def Device.pays (d : Device) : Device.Event → Nat
  | .sampleButton button low => (low && button.moves).toNat
  | .readBarrier barrier low => (barrier.readAction (d.lastActive barrier) low).elim 0 fun a => 5 * a.call.causes d.controls
  | .handle => ((d.handler.takes d.mqtt).bind IncomingMessage.command).elim 0 fun c => 5 * c.call.causes d.controls
  | _ => 0

namespace PinsAux

open Device

/-! ## The flags of the barriers -/

/-- The flag of a barrier. -/
def flag (c : Controls) : Barrier → Bool
  | .lightBarrier1 => c.barrier1Active
  | .lightBarrier2 => c.barrier2Active

/-- What an action tells of a barrier. -/
def tells (barrier : Barrier) : Action → Option Bool
  | .input (.barrier1Set active) => if barrier = .lightBarrier1 then some active else none
  | .input (.barrier2Set active) => if barrier = .lightBarrier2 then some active else none
  | _ => none

/-- An action sets the flag of the barrier that it tells of, and no other. -/
theorem flag_call (barrier : Barrier) (a : Action) (c : Controls) : flag (a.call.apply c) barrier = (tells barrier a).getD (flag c barrier) := by
  have hsend (command : GateCommand) : flag (c.sendUnlessLocked command) barrier = flag c barrier := by
    obtain ⟨-, he⟩ | ⟨-, he⟩ := c.sendUnlessLocked_cases command
    · rw [he]
    · rw [he]
      cases barrier <;> rfl
  cases a with
  | input i =>
    cases i with
    | impulse => exact hsend .impulse
    | windTrigger | resetWindLock => cases barrier <;> rfl
    | barrier1Set active =>
      show flag (c.barrier1Set active) barrier = _
      obtain ⟨-, he⟩ | ⟨rfl, -, he⟩ := c.barrier1Set_cases active
      · rw [he]
        cases barrier <;> rfl
      · rw [he]
        cases barrier <;> rfl
    | barrier2Set active => cases barrier <;> rfl
  | execute command =>
    cases command with
    | «open» => exact hsend .open
    | close => exact hsend .close
    | stop => exact hsend .stop
    | resetWindLock | setBarrierBypass active => cases barrier <;> rfl

/-- An action is a call on the controls, before the gate task runs, too. -/
theorem controls_act (g : FirmwareTask) (a : Action) : (g.act a).controls = a.call.apply g.controls := by
  cases g with
  | spawned a' b' flash early => simp [FirmwareTask.act, FirmwareTask.controls]
  | running f => exact congrArg (fun t : Task => t.gate.controls) (f.act_spec a).1

/-- So an action of the device does this to the flag. -/
theorem flag_actedGate (barrier : Barrier) (g : FirmwareTask) (a : Option Action) :
    flag (actedGate g a).controls barrier = (a.bind (tells barrier)).getD (flag g.controls barrier) := by
  cases a with
  | none => rfl
  | some a =>
    show flag (g.act a).controls barrier = _
    rw [controls_act, flag_call]
    rfl

/-- A poll of the gate sets no flag. -/
theorem flag_poll (barrier : Barrier) (f : Firmware) (sleep : Duration) (lag : Nat → Duration) :
    flag (f.poll sleep lag).controls barrier = flag f.controls barrier := by
  have hkept : Preserved fun g _ => flag g.controls barrier = flag f.controls barrier := by
    intro g p g' p' hs h
    obtain ⟨-, h1, h2, -, -⟩ := inputs_step hs
    cases barrier with
    | lightBarrier1 => exact h1.trans h
    | lightBarrier2 => exact h2.trans h
  refine Firmware.poll_rule (P := fun f' => flag f'.controls barrier = flag f.controls barrier) rfl fun _ f' hp => ?_
  unfold Firmware.controls
  rw [hp.task]
  exact hkept.poll (t := f.task.wait sleep lag) rfl

/-- A poll of the gate task sets no flag, the first one included. -/
theorem flag_polled (barrier : Barrier) (g : FirmwareTask) (sleep : Duration) (lag : Nat → Duration) :
    flag (polled g sleep lag).1.controls barrier = flag g.controls barrier := by
  cases g with
  | spawned a b flash early => cases barrier <;> rfl
  | running f => exact flag_poll barrier f sleep lag

/-- What leaves the controls of the firmware alone leaves those of its task alone. -/
theorem controls_map {step : Firmware → Firmware} (hstep : ∀ f, (step f).controls = f.controls) (g : FirmwareTask) :
    (g.map step).controls = g.controls := by
  cases g with
  | spawned => rfl
  | running f => exact hstep f

/-- The flags of the barriers are the levels that were read last. -/
def PinsFollowed (d : Device) : Prop := ∀ barrier, flag d.controls barrier = (d.lastActive barrier).getD false

/-- A reading of a barrier tells of a change of this barrier. -/
theorem readAction_tells (barrier other : Barrier) (last : Option Bool) (low : Bool) :
    ((barrier.readAction last low).bind (tells other)) = if other = barrier ∧ last ≠ some low then some low else none := by
  unfold Barrier.readAction
  by_cases hlast : last = some low
  · simp [hlast]
  · cases barrier <;> cases other <;> simp [hlast, Barrier.setter, tells]

/-- Every event keeps the flags at the levels. -/
theorem follows_next (d : Device) (e : Device.Event) (h : PinsFollowed d) : PinsFollowed (d.next e) := by
  intro barrier
  have hrest : (d.next e).lastActive = (if d.Idle then d.restNext e else d.rest).lastActive := congrArg Rest.lastActive (d.rest_next e)
  have hgate : (d.next e).controls = (if d.Idle then d.gateNext e else d.gate).controls := congrArg FirmwareTask.controls (d.gate_next e)
  rw [hgate, hrest]
  have hold : flag d.gate.controls barrier = (d.lastActive barrier).getD false := h barrier
  by_cases hidle : d.Idle
  · rw [if_pos hidle, if_pos hidle]
    have hsilent {a : Option Action} (ha : a.bind (tells barrier) = none) :
        flag (actedGate d.gate a).controls barrier = (d.lastActive barrier).getD false := by
      rw [flag_actedGate, ha]
      exact hold
    have hmap {step : Firmware → Firmware} (hstep : ∀ f, (step f).controls = f.controls) :
        flag (d.gate.map step).controls barrier = flag d.gate.controls barrier := congrArg (flag · barrier) (controls_map hstep d.gate)
    cases e with
    | pollGate sleep lag => exact (flag_polled barrier d.gate sleep lag).trans hold
    | locked => exact (hmap fun f => congrArg (·.gate.controls) f.locked_frame.1).trans hold
    | saveReturns result => exact (hmap fun f => congrArg (·.gate.controls) (f.saveReturns_frame result).1).trans hold
    | sampleButton button low =>
      have hlast : (d.restNext (.sampleButton button low)).lastActive = d.lastActive := by
        cases hsample : (d.debouncers button).sample low <;> simp [restNext, rest, hsample]
      rw [hlast]
      refine hsilent ?_
      unfold sampleAction
      split
      · cases button <;> rfl
      · rfl
    | readBarrier read low =>
      show flag (actedGate d.gate (read.readAction (d.lastActive read) low)).controls barrier = _
      rw [flag_actedGate, readAction_tells, hold]
      show _ = (Function.update d.lastActive read (some low) barrier).getD false
      by_cases hread : barrier = read
      · subst hread
        by_cases hlast : d.lastActive barrier = some low <;> simp [hlast]
      · simp [hread]
    | handle =>
      refine hsilent ?_
      cases (d.handler.takes d.mqtt).bind IncomingMessage.command <;> rfl
    | discover =>
      show flag (if d.mqtt.connected = some () then d.gate.map Firmware.publishState else d.gate).controls barrier = _
      split
      · exact (hmap fun f => show f.publishState.controls = f.controls from rfl).trans hold
      · exact hold
    | sleep | wake | step => exact hold
  · rw [if_neg hidle, if_neg hidle]
    exact hold

/-- The flags are the levels in every run. -/
theorem follows_after (credentials : Option (String × Bytes)) (a b : MotorSettings) (flash : Option GateState) (events : List Device.Event) :
    PinsFollowed (Device.after credentials a b flash events) :=
  run_always follows_next (s := Device.boot credentials a b flash) (fun barrier => by cases barrier <;> rfl) events

/-- The wind lock, or the flags of the barriers, are against a movement exactly if the levels read last are. -/
theorem against_iff {d : Device} (h : PinsFollowed d) (direction : Direction) : d.Against direction ↔ d.controls.blocked direction ≠ none := by
  have h1 : d.controls.barrier1Active = true ↔ d.Interrupted .lightBarrier1 := by
    have hflag : d.controls.barrier1Active = (d.lastActive .lightBarrier1).getD false := h .lightBarrier1
    rw [hflag]
    unfold Interrupted
    rcases d.lastActive .lightBarrier1 with _ | _ | _ <;> simp
  have h2 : d.controls.barrier2Active = true ↔ d.Interrupted .lightBarrier2 := by
    have hflag : d.controls.barrier2Active = (d.lastActive .lightBarrier2).getD false := h .lightBarrier2
    rw [hflag]
    unfold Interrupted
    rcases d.lastActive .lightBarrier2 with _ | _ | _ <;> simp
  unfold Against
  rw [← h1, ← h2, Ne, Controls.blocked_eq_none_iff]
  cases d.controls.barrierBypass <;> cases d.controls.barrier1Active <;> cases d.controls.barrier2Active <;>
    cases d.controls.windLocked <;> cases direction <;> simp

/-! ## The relays -/

/-- The gate task is as the safety of the gate has it, and waits for the flash only between two steps. -/
def Secured (f : Firmware) : Prop := f.task.Holds Safe ∧ (f.stage ≠ .step → f.task.Settled)

/-- A gate task that has just been built is secured. -/
theorem secured_boot (early : List Action) (a b : MotorSettings) (flash : Option GateState) : Secured (Firmware.boot early a b flash) :=
  ⟨safe_boot _ _ _ _, fun h => absurd rfl h⟩

/-- Every event keeps the gate task secured. -/
theorem secured_next (f : Firmware) (e : Firmware.Event) (h : Secured f) : Secured (f.next e) := by
  cases e with
  | act a =>
    obtain ⟨htask, hstage, -⟩ := f.act_spec a
    show Secured (f.act a)
    unfold Secured
    rw [htask, hstage]
    exact ⟨safe_call f.task a.call h.1, h.2⟩
  | poll sleep lag =>
    refine Firmware.poll_rule (P := Secured) h fun hs f' hp => ?_
    refine ⟨?_, fun hstage => ?_⟩
    · rw [hp.task]
      exact safe_step.poll (safe_wait f.task sleep lag h.1)
    · rw [hp.task]
      rcases hp.stage with ⟨s, hsettled, -⟩ | ⟨hsame, -⟩
      · exact ⟨s, hsettled⟩
      · exact absurd (hsame.trans hs) hstage
  | locked =>
    show Secured f.locked
    unfold Firmware.locked
    split
    · rename_i hs
      exact ⟨h.1, fun _ => h.2 (by simp [hs])⟩
    · exact h
  | saveReturns result =>
    show Secured (f.saveReturns result)
    have htask := (f.saveReturns_frame result).1
    unfold Secured
    rw [htask]
    refine ⟨h.1, fun hstage => h.2 fun hs => hstage ?_⟩
    unfold Firmware.saveReturns
    rw [hs]
    exact hs

/-- When the gate task has been polled, no relay is energized in a direction that is blocked. -/
theorem level_polled {a b : MotorSettings} {flash : Option GateState} {g : FirmwareTask} (h : Runs a b flash Secured g) (sleep : Duration)
    (lag : Nat → Duration) {direction : Direction} (hblocked : (polled g sleep lag).1.controls.blocked direction ≠ none) (leaf : Leaf) :
    (polled g sleep lag).1.task.gate.board.levels ⟨leaf, direction⟩ = false := by
  cases g with
  | spawned a' b' flash' early => exact SafetyAux.low_of_blocked (secured_boot early a' b' flash').1 (Or.inl ⟨_, rfl⟩) hblocked leaf
  | running f =>
    have hnext : Secured (f.poll sleep lag) := secured_next f (.poll sleep lag) h
    refine SafetyAux.low_of_blocked hnext.1 ?_ hblocked leaf
    show (f.poll sleep lag).task.Settled ∨ (f.poll sleep lag).task.Silent
    unfold Firmware.poll
    split
    · rw [(f.pollStep_spec sleep lag).task]
      exact (Task.poll_ends _).imp_left And.left
    · rename_i hstage
      exact Or.inl (h.2 hstage)

/-- The record of a gate that is open. -/
def openRecord : GateState where
  leafAPosition := 255
  leafBPosition := 255
  windLocked := false

/-- The push button is pressed, the gate begins to close, and light barrier 2 is interrupted. -/
def closing : List Device.Event :=
  [.pollGate 0 steady, .pollGate 0 steady] ++ List.replicate 5 (.sampleButton .pushButton true) ++
    [.pollGate 0 steady, .pollGate (fromSecs 1) steady, .readBarrier .lightBarrier2 true]

/-! ## The movements -/

/-- The low samples that a debouncer has counted towards a press. -/
def count (x : Debouncer) : Nat := if x.armed then x.stable.val else 0

/-- A sample counts towards a press if it finds the button pressed, and a press takes five. -/
theorem sample_count {x x' : Debouncer} (h : x.stableSamples = edgeStableSamples) {low pressed : Bool}
    (hsample : x.sample low = some (pressed, x')) :
    x'.stableSamples = edgeStableSamples ∧ count x' + 5 * pressed.toNat ≤ count x + low.toNat := by
  unfold Debouncer.sample at hsample
  split at hsample
  · cases hsample
    exact ⟨h, by simp [count]⟩
  · rename_i hlow
    have harmed : low = x.armed := Decidable.not_not.mp hlow
    split at hsample
    · cases hsample
    · rename_i stable hstable
      have hval : stable.val = x.stable.val + 1 := by
        unfold U8.increment at hstable
        split at hstable
        · cases hstable
          rfl
        · cases hstable
      split at hsample
      · cases hsample
        refine ⟨h, ?_⟩
        unfold count
        cases hx : x.armed <;> simp [harmed, hx, hval]
      · rename_i hfive
        cases hsample
        refine ⟨h, ?_⟩
        have hle : 5 ≤ stable.val := by
          rw [h] at hfive
          exact Nat.not_lt.mp hfive
        unfold count
        cases hx : x.armed <;> simp [harmed, hx]
        omega

/-- What the debouncers have counted towards presses that can make the gate move. -/
def counted (debouncers : Button → Debouncer) : Nat :=
  count (debouncers .pushButton) + count (debouncers .radioButton) + count (debouncers .windSensor)

/-- What a debouncer has counted changes with a sample, and the others do not. -/
theorem counted_update (debouncers : Button → Debouncer) (button : Button) {x : Debouncer} {m n : Nat}
    (h : count x + m ≤ count (debouncers button) + n) :
    counted (Function.update debouncers button x) + m * button.moves.toNat ≤ counted debouncers + n * button.moves.toNat := by
  unfold counted
  cases button <;> simp [Button.moves] <;> omega

/-- The movements started and those that what was sent can still become. -/
def potential : FirmwareTask → Nat
  | .spawned a b flash early => (FirmwareTask.spawned a b flash early).controls.motion + (Firmware.loaded flash).windLocked.toNat
  | .running f => CausesAux.potential f.task

/-- An action adds no more than the movements that it can cause. -/
theorem potential_actedGate (g : FirmwareTask) (a : Option Action) :
    potential (actedGate g a) ≤ potential g + a.elim 0 fun a => a.call.causes g.controls := by
  cases a with
  | none => exact Nat.le_refl _
  | some a =>
    cases g with
    | spawned a' b' flash early =>
      have hmotion := CausesAux.call_motion a.call (FirmwareTask.spawned a' b' flash early).controls
      rw [← controls_act] at hmotion
      show ((FirmwareTask.spawned a' b' flash early).act a).controls.motion + _ ≤ _
      simp only [potential, Option.elim]
      omega
    | running f =>
      show CausesAux.potential (f.act a).task ≤ _
      rw [(f.act_spec a).1]
      exact CausesAux.next_potential f.task (.call a.call)

/-- A poll of the gate task adds nothing. -/
theorem potential_polled (g : FirmwareTask) (sleep : Duration) (lag : Nat → Duration) :
    potential (.running (polled g sleep lag).1) ≤ potential g := by
  cases g with
  | spawned a b flash early =>
    have hmovements : (Firmware.boot early a b flash).task.gate.movements = 0 := rfl
    have hheld : (Firmware.boot early a b flash).task.gate.held =
        (FirmwareTask.spawned a b flash early).controls.motion + (Firmware.loaded flash).windLocked.toNat := by
      unfold Firmware.boot
      simp only
      generalize (Firmware.loaded flash) = state
      cases state.windLocked <;> rfl
    have hboot : CausesAux.potential (Firmware.boot early a b flash).task =
        (FirmwareTask.spawned a b flash early).controls.motion + (Firmware.loaded flash).windLocked.toNat := by
      unfold CausesAux.potential
      rw [hmovements, hheld, Nat.zero_add]
    exact Nat.le_of_eq hboot
  | running f =>
    refine Firmware.poll_rule (P := fun f' => CausesAux.potential f'.task ≤ CausesAux.potential f.task) (Nat.le_refl _) fun _ f' hp => ?_
    rw [hp.task]
    exact CausesAux.next_potential f.task (.poll sleep lag)

/-- What leaves the task of the gate alone adds nothing. -/
theorem potential_map {step : Firmware → Firmware} (hstep : ∀ f, (step f).task = f.task) (g : FirmwareTask) :
    potential (g.map step) = potential g := by
  cases g with
  | spawned => rfl
  | running f => exact congrArg CausesAux.potential (hstep f)

/-- The movements and what was counted are paid for. -/
def Paid (d : Device) (paid : Nat) : Prop :=
  (∀ button, (d.debouncers button).stableSamples = edgeStableSamples) ∧ 5 * potential d.gate + counted d.debouncers ≤ paid

/-- Only a press of a button that moves the gate is a cause. -/
theorem causes_le_moves (button : Button) (c : Controls) : button.action.call.causes c ≤ button.moves.toNat := by
  cases button with
  | pushButton | radioButton =>
    show (if c.windLocked then 0 else 1) ≤ 1
    split <;> decide
  | windSensor | windReset | barrierBypassButton => exact Nat.le_refl _

/-- A sample of a button pays for what the debouncer has counted, and for the press. -/
theorem paid_sample (d : Device) (button : Button) (low : Bool) {n : Nat} (h : Paid d n) :
    (∀ other, ((d.restNext (.sampleButton button low)).debouncers other).stableSamples = edgeStableSamples) ∧
      5 * potential (d.gateNext (.sampleButton button low)) + counted (d.restNext (.sampleButton button low)).debouncers ≤
        n + (low && button.moves).toNat := by
  obtain ⟨hsamples, hpaid⟩ := h
  cases hsample : (d.debouncers button).sample low with
  | none =>
    have hdebouncers : (d.restNext (.sampleButton button low)).debouncers = d.debouncers := by simp [restNext, rest, hsample]
    have hgate : d.gateNext (.sampleButton button low) = d.gate := by simp [gateNext, sampleAction, hsample, actedGate]
    rw [hdebouncers, hgate]
    exact ⟨hsamples, Nat.le_add_right_of_le hpaid⟩
  | some sampled =>
    obtain ⟨pressed, x⟩ := sampled
    obtain ⟨hx, hcount⟩ := sample_count (hsamples button) hsample
    have hdebouncers : (d.restNext (.sampleButton button low)).debouncers = Function.update d.debouncers button x := by
      simp [restNext, hsample]
    have hgate : d.gateNext (.sampleButton button low) = actedGate d.gate (if pressed then some button.action else none) := by
      cases pressed <;> simp [gateNext, sampleAction, hsample]
    have hupdate := counted_update d.debouncers button hcount
    have hcauses := causes_le_moves button d.gate.controls
    have hpotential := potential_actedGate d.gate (if pressed then some button.action else none)
    rw [hdebouncers, hgate]
    refine ⟨fun other => ?_, ?_⟩
    · by_cases hother : other = button
      · subst hother
        simpa using hx
      · simpa [hother] using hsamples other
    · cases pressed <;> cases low <;> cases hmoves : button.moves <;> simp [hmoves] at hupdate hcauses hpotential ⊢ <;> omega

/-- Every event pays for what it adds. -/
theorem paid_next (d : Device) (e : Device.Event) (n : Nat) (h : Paid d n) : Paid (d.next e) (n + d.pays e) := by
  obtain ⟨hsamples, hpaid⟩ := h
  have hrest : (d.next e).debouncers = (if d.Idle then d.restNext e else d.rest).debouncers := congrArg Rest.debouncers (d.rest_next e)
  unfold Paid
  rw [hrest, d.gate_next]
  by_cases hidle : d.Idle
  · rw [if_pos hidle, if_pos hidle]
    have hsame {g : FirmwareTask} (hg : potential g ≤ potential d.gate) :
        (∀ button, (d.debouncers button).stableSamples = edgeStableSamples) ∧ 5 * potential g + counted d.debouncers ≤ n :=
      ⟨hsamples, by omega⟩
    cases e with
    | pollGate sleep lag => exact hsame (potential_polled d.gate sleep lag)
    | locked => exact hsame (Nat.le_of_eq (potential_map (fun f => f.locked_frame.1) d.gate))
    | saveReturns result => exact hsame (Nat.le_of_eq (potential_map (fun f => (f.saveReturns_frame result).1) d.gate))
    | sampleButton button low => exact paid_sample d button low ⟨hsamples, hpaid⟩
    | readBarrier barrier low =>
      refine ⟨hsamples, ?_⟩
      have hpotential := potential_actedGate d.gate (barrier.readAction (d.lastActive barrier) low)
      show 5 * potential (actedGate d.gate (barrier.readAction (d.lastActive barrier) low)) + counted d.debouncers ≤
        n + (barrier.readAction (d.lastActive barrier) low).elim 0 fun a => 5 * a.call.causes d.controls
      cases hread : barrier.readAction (d.lastActive barrier) low with
      | none => exact hpaid
      | some a =>
        rw [hread] at hpotential
        simp only [Option.elim, Device.controls] at hpotential ⊢
        omega
    | handle =>
      refine ⟨hsamples, ?_⟩
      have hpotential := potential_actedGate d.gate (((d.handler.takes d.mqtt).bind IncomingMessage.command).map Action.execute)
      show 5 * potential (actedGate d.gate (((d.handler.takes d.mqtt).bind IncomingMessage.command).map Action.execute)) +
        counted d.debouncers ≤ n + ((d.handler.takes d.mqtt).bind IncomingMessage.command).elim 0 fun c => 5 * c.call.causes d.controls
      cases hcommand : (d.handler.takes d.mqtt).bind IncomingMessage.command with
      | none => exact hpaid
      | some c =>
        rw [hcommand] at hpotential
        simp only [Option.map, Option.elim, Action.call, Device.controls] at hpotential ⊢
        omega
    | discover =>
      refine hsame ?_
      show potential (if d.mqtt.connected = some () then d.gate.map Firmware.publishState else d.gate) ≤ _
      split
      · exact Nat.le_of_eq (potential_map (fun f => show f.publishState.task = f.task from rfl) d.gate)
      · exact Nat.le_refl _
    | sleep | wake | step => exact hsame (Nat.le_refl _)
  · rw [if_neg hidle, if_neg hidle]
    exact ⟨hsamples, Nat.le_add_right_of_le hpaid⟩

end PinsAux

open PinsAux Device

/-- No relay works against the pins: in every run of the device, when a relay is energized in a direction that the light barriers, as their
pins were read last, or the wind lock are against, a signal has been left that the gate task waits for; and when the gate task has been
polled, no such relay is energized. -/
theorem pins_guard_relays (credentials : Option (String × Bytes)) (a b : MotorSettings) (flash : Option GateState)
    (events : List Device.Event) :
    let d := Device.after credentials a b flash events
    (∀ p, d.level p = true → d.Against p.direction → d.controls.command ≠ none ∨ d.controls.barrierChanged ≠ none) ∧
      ∀ sleep lag p, d.Idle → (d.next (.pollGate sleep lag)).level p = true → ¬(d.next (.pollGate sleep lag)).Against p.direction := by
  intro d
  have hfollows : PinsFollowed d := follows_after credentials a b flash events
  have hruns : Runs a b flash Secured d.gate :=
    runs_after (secured_boot · a b flash) secured_next (fun f hf => hf) credentials events
  refine ⟨fun p hlevel hagainst => ?_, fun sleep lag p hidle hlevel hagainst => ?_⟩
  · rw [against_iff hfollows] at hagainst
    unfold Device.level at hlevel
    unfold Device.controls at hagainst ⊢
    cases hgate : d.gate with
    | spawned =>
      rw [hgate] at hlevel
      cases hlevel
    | running f =>
      rw [hgate] at hlevel hagainst hruns
      exact SafetyAux.signal_of_blocked hruns.1 hlevel hagainst
  · rw [against_iff (follows_next d (.pollGate sleep lag) hfollows)] at hagainst
    unfold Device.level at hlevel
    unfold Device.controls at hagainst
    rw [d.gate_next, if_pos hidle] at hlevel hagainst
    have hlow : (polled d.gate sleep lag).1.task.gate.board.levels p = false := level_polled hruns sleep lag hagainst p.leaf
    cases hlow.symm.trans hlevel

/-- The leaf that closes is stopped once light barrier 2 is interrupted. -/
theorem pins_guard_relays_closing :
    let d := Device.after none (settingsOf leafA 0) (settingsOf leafB 0) (some openRecord) closing
    (d.controls.command ≠ none ∨ d.controls.barrierChanged ≠ none) ∧ (d.next (.pollGate 0 steady)).level ⟨.b, .closing⟩ ≠ true := by
  intro d
  have hguard := pins_guard_relays none (settingsOf leafA 0) (settingsOf leafB 0) (some openRecord) closing
  have hsignal := hguard.1 ⟨.b, .closing⟩ (by decide +kernel) (by decide +kernel)
  have hpolled := hguard.2 0 steady ⟨.b, .closing⟩ (by decide +kernel)
  exact ⟨hsignal, fun hlevel => hpolled hlevel (by decide +kernel)⟩

/-- Movements are paid for at the pins and by the broker: in every run of the device, five times the movements that the gate has started are
at most the samples that have found a button that moves it pressed, five for each message and each change of a barrier that can make it
move, and five more if the wind lock was restored at boot. -/
theorem movements_paid (credentials : Option (String × Bytes)) (a b : MotorSettings) (flash : Option GateState) (events : List Device.Event) :
    5 * (Device.after credentials a b flash events).movements ≤
      total Device.next Device.pays (Device.boot credentials a b flash) events + 5 * (Firmware.loaded flash).windLocked.toNat := by
  have hboot : Paid (Device.boot credentials a b flash) (5 * (Firmware.loaded flash).windLocked.toNat) := by
    refine ⟨fun _ => rfl, Nat.le_of_eq ?_⟩
    show 5 * (Controls.new.motion + (Firmware.loaded flash).windLocked.toNat) + 0 = _
    rw [show Controls.new.motion = 0 from rfl, Nat.zero_add, Nat.add_zero]
  have hpaid : Paid (Device.after credentials a b flash events) (5 * (Firmware.loaded flash).windLocked.toNat +
      total Device.next Device.pays (Device.boot credentials a b flash) events) := run_counted paid_next hboot events
  have hmovements : (Device.after credentials a b flash events).movements ≤ potential (Device.after credentials a b flash events).gate := by
    unfold Device.movements potential
    split
    · exact Nat.zero_le _
    · exact Nat.le_add_right _ _
  have htotal := hpaid.2
  omega

end GateLink
