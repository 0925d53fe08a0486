import GateLink.Lemmas.Gate

/-!
# Nothing moves without its own cause

A potential: the movements started so far, the command in the slot, the pending command and the command a step has in its hands
(`motion`). No block of the task raises it, and a call raises it by one at most, and only if it sends a command that can move
the gate. So there are never more movements than such calls (`movements_have_causes`).
-/

namespace GateLink

open Machine

/-- The calls that can make the gate move, as they are accepted: a command while the wind lock is off, a trip of the wind guard,
light barrier 1 clearing while the wind lock is engaged. -/
def Call.causes (c : Controls) : Call → Nat
  | .open | .close | .impulse => if c.windLocked then 0 else 1
  | .windTrigger => 1
  | .barrier1Set active => if !active && c.windLocked then 1 else 0
  | .stop | .resetWindLock | .barrier2Set _ | .setBarrierBypass _ => 0

/-- The causes of an event in the state it happens in. -/
def Event.causes (t : Task) : Event → Nat
  | .call c => c.causes t.gate.controls
  | .poll _ _ => 0

/-- The movements the gate has started. -/
def Gate.movements (g : Gate) : Nat := g.board.trace.countP Entry.isStart

/-- A command other than STOP can start a movement. -/
def GateCommand.motion : GateCommand → Nat
  | .stop => 0
  | _ => 1

/-- The command in the slot, if it can start a movement. -/
def Controls.motion (c : Controls) : Nat := c.command.elim 0 GateCommand.motion

/-- What can still become a movement of what was sent before: the command in the slot and the pending command. -/
def Gate.held (g : Gate) : Nat := g.controls.motion + g.pending.isSome.toNat

namespace CausesAux

/-- What can still become a movement, with the command a step has in its hands. -/
def held (g : Gate) : Point → Nat
  | .execute c => g.held + c.motion
  | .over _ result => g.controls.motion + result.isSome.toNat
  | .ended result => g.controls.motion + result.isSome.toNat
  | _ => g.held

/-- Movements started and movements to come. -/
def motion (g : Gate) (p : Point) : Nat := g.movements + held g p

/-- A command that is resolved to a movement can cause one. -/
theorem motion_of_commandFor {c : Controls} {x : GateCommand} {d : Direction} (h : c.resolveImpulse x = commandFor d) :
    x.motion = 1 := by
  cases x with
  | stop => cases d <;> simp [Controls.resolveImpulse, commandFor] at h
  | _ => rfl

/-- What a drive hands back can cause no more than the command itself. -/
theorem handedBack_motion (c : GateCommand) : (handedBack c).isSome.toNat ≤ c.motion := by
  cases c <;> simp [handedBack, GateCommand.motion]

/-- A stop writes to pins only. -/
theorem stop_movements {leaf : Leaf} (m : Motor leaf) (bd : Board) :
    (m.stop bd).2.trace.countP Entry.isStart = bd.trace.countP Entry.isStart := by
  cases hs : m.state with
  | idle => rw [Motor.stop_of_idle hs]
  | running d t => simp [Motor.stop_of_running hs, Motor.released, Entry.isStart]

/-- A start of a motor writes to pins only, too. -/
theorem start_movements {leaf : Leaf} (m : Motor leaf) (d : Direction) (bd : Board) :
    (m.start d bd).2.trace.countP Entry.isStart = bd.trace.countP Entry.isStart := by
  have h : (m.settle bd).2.trace.countP Entry.isStart = bd.trace.countP Entry.isStart := stop_movements m bd
  cases d <;> simp [Motor.start, Board.setLow, Board.setHigh, Entry.isStart, h]

/-- Stopping both leaves starts no movement. -/
theorem stopBoth_movements (g : Gate) : ((g.stopLeaf .a).stopLeaf .b).movements = g.movements :=
  (stop_movements _ _).trans (stop_movements _ _)

/-- The end of a drive starts no movement. -/
theorem endDrive_movements (g : Gate) (dr : Drive) : (g.endDrive dr).movements = g.movements :=
  Gate.endDrive_rule (P := fun g' => g'.movements = g.movements) (stopBoth_movements g) (fun _ h => h)
    (fun _ h => by simpa [Gate.movements, Entry.isStart] using h) dr

/-- Only the begin of a movement counts as one. -/
theorem movements_step {g g' : Gate} {p p' : Point} (hs : Step g p g' p') (hp : ∀ c, p ≠ .execute c) :
    g'.movements = g.movements := by
  cases hs with
  | refuse | begin | stop => exact absurd rfl (hp _)
  | @start dr leaf now at' r hw hn hr => exact start_movements (g.motor leaf) dr.direction g.board
  | @complete dr leaf now at' hw hn => exact stop_movements (g.motor leaf) g.board
  | announce => simp [Gate.movements, Entry.isStart]
  | @finish dr result => exact endDrive_movements g dr
  | settle => simp [Gate.movements, Entry.isStart]
  | _ => rfl

/-- At an await, the gate holds what is in its slots. -/
theorem held_await (g : Gate) (w : Await) : held g (.await w) = g.held := by cases w <;> rfl

/-- After a leaf, it holds no more than that. -/
theorem held_afterLeaf (g : Gate) (dr : Drive) (now : Instant) (leaf : Leaf) : held g (.afterLeaf dr now leaf) ≤ g.held :=
  Point.afterLeaf_rule (P := (held g · ≤ g.held)) (Nat.le_refl _) (fun _ => Nat.add_le_add_left (Nat.zero_le _) _)
    (fun _ _ => Nat.le_refl _) leaf

/-- Outside of the begin of a step, no block raises what can still become a movement. -/
theorem held_step {g g' : Gate} {p p' : Point} (hs : Step g p g' p') (hp : ∀ c, p ≠ .execute c) : held g' p' ≤ held g p := by
  have hpending : g.controls.motion ≤ g.held := Nat.le_add_right _ _
  cases hs with
  | refuse | begin | stop => exact absurd rfl (hp _)
  | @takePending s c hc =>
    have hle : c.motion ≤ 1 := by cases c <;> simp [GateCommand.motion]
    simp only [held, Gate.held, hc, Gate.pending_controls, Option.isSome_none, Option.isSome_some, Bool.toNat_false,
      Bool.toNat_true]
    omega
  | @takeCommand w c hw hc =>
    have hslot : g.controls.motion = c.motion := by simp [Controls.motion, hc]
    have hslot' : g.takeCommand.controls.motion = 0 := rfl
    rw [held_await]
    simp only [held, Gate.held, hslot, hslot', Gate.takeCommand_pending]
    omega
  | @takeReset w hw hc hr =>
    rw [held_await]
    exact hpending
  | rest hw hc hr => exact Nat.le_of_eq ((held_await _ _).trans (held_await _ _).symm)
  | block hb => exact hpending
  | start hw hn hr =>
    simp only [held, Gate.held, Gate.startLeaf_controls, Gate.startLeaf_pending]
    exact Nat.le_refl _
  | keep hr => exact held_afterLeaf _ _ _ _
  | complete hr hn =>
    refine Nat.le_trans (held_afterLeaf _ _ _ _) ?_
    simp only [held, Gate.held, Gate.stopLeaf_controls, Gate.stopLeaf_pending]
    exact Nat.le_refl _
  | sameCommand hc => exact Nat.add_le_add_right (Nat.zero_le _) _
  | @interrupt dr dl y c hc hne =>
    have hslot : g.controls.motion = c.motion := by simp [Controls.motion, hc]
    have hslot' : g.takeCommand.controls.motion = 0 := rfl
    have hback := handedBack_motion c
    simp only [held, Gate.held, hslot, hslot']
    omega
  | finish =>
    simp only [held, Gate.endDrive_controls]
    exact Nat.le_refl _
  | _ => exact Nat.le_refl _

/-- No block raises the potential: a movement that begins uses up the command it is for. -/
theorem motion_step {g g' : Gate} {p p' : Point} (hs : Step g p g' p') : motion g' p' ≤ motion g p := by
  by_cases hp : ∀ c, p ≠ .execute c
  · unfold motion
    rw [movements_step hs hp]
    exact Nat.add_le_add_left (held_step hs hp) _
  · push Not at hp
    obtain ⟨c, rfl⟩ := hp
    have hslot : g.controls.motion ≤ g.held := Nat.le_add_right _ _
    cases hs with
    | refuse hc hb =>
      exact Nat.add_le_add_left (Nat.le_trans hslot (Nat.le_add_right _ _)) _
    | @begin _ d hc hb =>
      have hone : (g.begin d).movements = g.movements + 1 := by
        simp [Gate.movements, Gate.begin, List.countP_cons, Entry.isStart]
      have hheld : (g.begin d).held = g.held := rfl
      simp only [motion, held, hone, hheld, motion_of_commandFor hc]
      omega
    | stop hc =>
      simp only [motion, held, stopBoth_movements, Gate.stopLeaf_controls]
      exact Nat.add_le_add_left (Nat.le_trans hslot (Nat.le_add_right _ _)) _

/-- A call raises what the slot holds by its causes at most. -/
theorem call_motion (call : Call) (c : Controls) : (call.apply c).motion ≤ c.motion + call.causes c := by
  have send (command : GateCommand) (n : Nat) (hn : command.motion ≤ n) :
      (c.sendUnlessLocked command).motion ≤ c.motion + if c.windLocked then 0 else n := by
    obtain ⟨hl, he⟩ | ⟨hl, he⟩ := c.sendUnlessLocked_cases command
    · rw [he, hl]
      exact Nat.le_add_right _ _
    · rw [he, hl]
      exact Nat.le_add_left_of_le hn
  cases call with
  | «open» => exact send .open 1 (Nat.le_refl _)
  | close => exact send .close 1 (Nat.le_refl _)
  | impulse => exact send .impulse 1 (Nat.le_refl _)
  | stop => simpa [Call.apply, Controls.stop, Call.causes] using send .stop 0 (Nat.le_refl _)
  | windTrigger => exact Nat.le_add_left _ _
  | barrier1Set active =>
    simp only [Call.apply, Call.causes]
    obtain ⟨ha, he⟩ | ⟨ha, hl, he⟩ := c.barrier1Set_cases active
    · rw [he]
      exact Nat.le_add_right _ _
    · rw [he, ha, hl]
      exact Nat.le_add_left _ _
  | _ => exact Nat.le_add_right _ _

/-- The potential of a task while it sleeps. -/
def potential (t : Task) : Nat := t.gate.movements + t.gate.held

/-- An event raises the potential by its causes at most. -/
theorem next_potential (t : Task) (e : Event) : potential (t.next e) ≤ potential t + e.causes t := by
  cases e with
  | call c =>
    have h := call_motion c t.gate.controls
    have ht : (t.call c).gate.movements = t.gate.movements := rfl
    simp only [Task.next, potential, Gate.held, ht, Event.causes]
    simp only [Task.call, Gate.modify_controls, Gate.modify_pending]
    omega
  | poll sleep lag =>
    have hI : Preserved (fun g p => motion g p ≤ potential t) := fun _ _ _ _ hs h => Nat.le_trans (motion_step hs) h
    have hw : motion (t.wait sleep lag).gate (.await t.await) ≤ potential t := by
      rw [motion, held_await]
      exact Nat.le_refl _
    have h : motion (t.wait sleep lag).poll.gate (.await (t.wait sleep lag).poll.await) ≤ potential t :=
      hI.poll (t := t.wait sleep lag) hw
    rw [motion, held_await] at h
    exact h

/-- From any state, a run starts no more movements than were held there and its events are causes of. -/
theorem run_movements (t : Task) (events : List Event) :
    (run Task.next t events).gate.movements ≤ t.gate.movements + t.gate.held + total Task.next Event.causes t events := by
  have h : potential (run Task.next t events) ≤ potential t + total Task.next Event.causes t events :=
    run_potential next_potential t events
  unfold potential at h
  omega

end CausesAux

open CausesAux

/-- Nothing moves without its own cause. In every run the movements the gate has started are at most as many as the calls that
can make it move, before and after it was built, and one more if the wind lock was restored at boot. And from any moment of a
run, events without such a call start no more movements than commands were held at that moment, in the slot and pending: each
of them is executed at most once, and no barrier change without the lock, no bypass, no reset, no STOP and no movement that
ends starts one. -/
theorem movements_have_causes (early : List Call) (a b : MotorSettings) (locked : Bool) (events : List Event) :
    let t := after early a b locked events
    t.gate.movements ≤
      total (fun c call => call.apply c) Call.causes Controls.new early +
        total Task.next Event.causes (boot early a b locked) events + locked.toNat ∧
    ∀ more : List Event, total Task.next Event.causes t more = 0 →
      (run Task.next t more).gate.movements ≤ t.gate.movements + t.gate.held := by
  intro t
  refine ⟨?_, fun more h => ?_⟩
  · have hlate : t.gate.movements ≤ (boot early a b locked).gate.movements + (boot early a b locked).gate.held +
        total Task.next Event.causes (boot early a b locked) events := run_movements _ events
    have hearly : (run (fun c (call : Call) => call.apply c) Controls.new early).motion ≤
        Controls.new.motion + total (fun c call => call.apply c) Call.causes Controls.new early :=
      run_potential (fun c call => call_motion call c) Controls.new early
    have hm : (boot early a b locked).gate.movements = 0 := rfl
    have hh : (boot early a b locked).gate.held =
        (run (fun c (call : Call) => call.apply c) Controls.new early).motion + locked.toNat := by
      cases locked <;> rfl
    have h0 : Controls.new.motion = 0 := rfl
    omega
  · have hr := run_movements t more
    omega

end GateLink
