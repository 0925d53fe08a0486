import GateLink.Lemmas.Pass
import GateLink.Lemmas.Stopped
import GateLink.Theorems.Safety
import GateLink.Theorems.Causes
import GateLink.Config

/-!
# An impulse while the gate moves

An impulse given while the gate moves is meant to stop it, and it does (`impulse_stops`), but for one race: the timer is served
before the command slot, and if the movement ends there, the impulse is left in the slot and is resolved in the next step as if it
had been given at rest (`impulse_starts`).
-/

namespace GateLink

open Machine

/-- The call sends a command, if it is accepted. Without the wind lock, no other call does. -/
def Call.Commands : Call → Prop
  | .open | .close | .stop | .impulse | .windTrigger => True
  | _ => False

/-- A call that sends no command leaves the slot alone while the wind lock is off, and the lock too. -/
theorem Call.apply_of_not_commands {call : Call} {c : Controls} (hl : c.windLocked = false) (h : ¬call.Commands) :
    (call.apply c).windLocked = false ∧ (call.apply c).command = c.command := by
  cases call with
  | barrier1Set active => exact ⟨by simp [apply, Controls.barrier1Set, hl], by simp [apply, Controls.barrier1Set, hl]⟩
  | barrier2Set active => exact ⟨hl, rfl⟩
  | setBarrierBypass active => exact ⟨hl, rfl⟩
  | resetWindLock => exact ⟨rfl, rfl⟩
  | _ => exact absurd trivial h

/-- The next poll serves its timer first, and the movement ends there: it is blocked, or neither leaf has anything left to do. -/
def Task.EndsFirst (t : Task) : Prop :=
  match t.await with
  | .moving dr deadline yielded =>
    yielded = true ∧ deadline ≤ t.gate.tick.now ∧
      (t.gate.controls.blocked dr.direction ≠ none ∨
        ∀ leaf, (dr.phase leaf).Over ((t.gate.motor leaf).runTime dr.direction) t.gate.tick.tick.now)
  | _ => False

/-- It is decided before every poll. -/
instance (t : Task) : Decidable t.EndsFirst :=
  match h : t.await with
  | .moving _ _ _ => decidable_of_iff (_ ∧ _ ∧ (_ ∨ _)) (by unfold Task.EndsFirst; rw [h])
  | .settled _ | .idle => isFalse (by unfold Task.EndsFirst; rw [h]; exact id)

/-- What may follow an impulse: no command, and no poll at which the timer ends the movement while the impulse is in the slot. -/
def ImpulseServed (t : Task) : Event → Prop
  | .call c => ¬c.Commands
  | .poll sleep lag => t.gate.controls.command = some .impulse → ¬(t.wait sleep lag).EndsFirst

namespace ImpulseAux

open SafetyAux

/-- An impulse is in the slot of a gate that moves, and nothing ends the movement before it is taken. -/
structure Waits (n : Nat) (t : Task) : Prop where
  unlocked : t.gate.controls.windLocked = false
  command : t.gate.controls.command = some .impulse
  moving : ∃ dr dl y, t.await = .moving dr dl y
  movements : t.gate.movements = n

/-- After a leaf, no command is executed. -/
theorem afterLeaf_ne_execute (dr : Drive) (now : Instant) (leaf : Leaf) (c : GateCommand) :
    Point.afterLeaf dr now leaf ≠ .execute c :=
  Point.afterLeaf_rule (P := (· ≠ .execute c)) nofun (fun _ => nofun) (fun _ _ => nofun) leaf

/-- The impulse was taken and the gate is stopped; no movement was started. -/
structure Served (n : Nat) (t : Task) : Prop where
  stopped : t.Holds Stopped
  command : t.gate.controls.command = none
  movements : t.gate.movements = n

/-- A pass starts no movement. -/
theorem movements_within (n : Nat) : PreservedWithin (fun g p => g.movements = n ∧ ∀ c, p ≠ .execute c) := by
  intro g p g' p' h hp hs
  refine ⟨(CausesAux.movements_step hs h.2).trans h.1, ?_⟩
  cases hs with
  | takePending | takeCommand => exact absurd rfl (hp _)
  | @keep dr leaf now hw => exact afterLeaf_ne_execute dr now leaf
  | @complete dr leaf now at' hw hn => exact afterLeaf_ne_execute _ now leaf
  | _ => nofun

/-- A passive entry starts no movement. -/
theorem isStart_of_passive {e : Entry} (h : e.Passive) : e.isStart = false := by
  unfold Entry.Passive at h
  unfold Entry.isStart
  cases ho : e.output with
  | start d =>
    rw [ho] at h
    exact h.elim
  | _ => rfl

/-- The poll that finds the impulse takes it, unless its timer ends the movement first: then the gate is stopped. -/
theorem poll_impulse {n : Nat} {t : Task} (h : Waits n t) (hf : ¬t.EndsFirst) : Served n t.poll := by
  refine Task.poll_rule (P := fun s => Waits n s ∧ ¬s.EndsFirst) (Q := Served n) ⟨h, hf⟩ fun s hs => ?_
  obtain ⟨⟨hl, hc, ⟨dr, dl, y, ha⟩, hm⟩, hf'⟩ := hs
  rcases ending_turn hl hc (Or.inr ⟨rfl, dr, dl, y, ha⟩) with ⟨sn, c', ha', hp, he⟩ | ⟨dr', dl', ha', hd, he⟩ | ⟨s', he, ht⟩
  · rw [ha'] at ha
    cases ha
  · have hr : (s.gate.tick.driveLoop dr').Holds (Ending .impulse) := (ending_within .impulse).driveLoop ⟨hl, hc, trivial⟩
    have hn : (s.gate.tick.driveLoop dr').Holds (fun g p => g.movements = n ∧ ∀ c, p ≠ .execute c) :=
      (movements_within n).driveLoop ⟨hm, nofun⟩
    obtain ⟨hb, hdl⟩ : s.gate.tick.controls.blocked dr'.direction = none ∧ (s.gate.tick.pass dr').2.nextDeadline ≠ none := by
      refine ⟨?_, fun hnone => ?_⟩
      · by_contra hb
        exact hf' (by unfold Task.EndsFirst; rw [ha']; exact ⟨rfl, hd, Or.inl hb⟩)
      · rw [pass_ends_iff] at hnone
        exact hf' (by unfold Task.EndsFirst; rw [ha']; exact ⟨rfl, hd, Or.inr fun leaf => by simpa using hnone leaf⟩)
    obtain ⟨deadline, hdl⟩ := Option.ne_none_iff_exists'.mp hdl
    have hx : (s.gate.tick.driveLoop dr').await = .moving (s.gate.tick.pass dr').2 deadline false := by
      unfold Gate.driveLoop
      rw [hb]
      simp only [hdl]
    refine Or.inl ⟨_, he, fun ⟨sn, hsn⟩ => ?_, fun _ => ⟨⟨hr.unlocked, hr.command, ⟨_, _, _, hx⟩, hn.1⟩, ?_⟩⟩
    · rw [hx] at hsn
      cases hsn
    · unfold Task.EndsFirst
      rw [hx]
      rintro ⟨hy, -⟩
      cases hy
  · refine Or.inr ⟨s', he, ht.stopped, ht.command, ?_⟩
    exact (ht.passive.countP_eq fun e => isStart_of_passive).trans hm

/-- A call that sends no command starts nothing. -/
theorem not_starts_of_not_commands {c : Call} (h : ¬c.Commands) : ¬c.Starts := by
  cases c <;> first | exact h | exact id

/-- A poll that is allowed takes the impulse, if it has not been taken. -/
theorem served_poll {n : Nat} {t : Task} (h : Waits n t ∨ Served n t) {sleep : Duration} {lag : Nat → Duration}
    (hok : ImpulseServed t (.poll sleep lag)) : Served n (t.next (.poll sleep lag)) := by
  rcases h with h | h
  · exact poll_impulse ⟨h.unlocked, h.command, h.moving, h.movements⟩ (hok h.command)
  · have hs := stopped_step.poll (t := t.wait sleep lag)
      ⟨stopped_wait h.stopped sleep lag, .refl _ t.gate.board.trace⟩
    have hc : (t.wait sleep lag).poll.gate.controls.command = none :=
      Preserved.poll (I := fun g _ => g.controls.command = none)
        (fun _ _ _ _ hs hn => (inputs_step hs).command.elim (fun he => he.trans hn) id) (t := t.wait sleep lag) h.command
    exact ⟨hs.1, hc, (hs.2.countP_eq fun e => isStart_of_passive).trans h.movements⟩

/-- What may follow keeps the impulse in its slot until a poll takes it, and the gate stopped from there on. -/
theorem served_run {n : Nat} {t : Task} (h : Waits n t) {events : List Event}
    (hok : Allowed Task.next ImpulseServed t events) :
    Waits n (run Task.next t events) ∨ Served n (run Task.next t events) := by
  refine run_invariant (P := fun s => Waits n s ∨ Served n s) (fun s e he hs => ?_) (Or.inl h) hok
  cases e with
  | call c =>
    rcases hs with hs | hs
    · obtain ⟨hl, hc⟩ := Call.apply_of_not_commands hs.unlocked he
      exact Or.inl ⟨hl, hc.trans hs.command, hs.moving, hs.movements⟩
    · obtain ⟨-, hc⟩ := Call.apply_of_not_commands hs.stopped.unlocked he
      exact Or.inr ⟨stopped_call hs.stopped (not_starts_of_not_commands he), hc.trans hs.command, hs.movements⟩
  | poll sleep lag => exact Or.inr (served_poll hs he)

/-- A movement is in flight exactly while one is reported. -/
theorem moving_of_coverState {t : Task} (h : t.Holds Shape) {d : Direction} (hd : t.gate.controls.coverState = d.coverState) :
    ∃ dr dl y, t.await = .moving dr dl y := by
  by_contra hn
  have hrest := atRest_of_shape h fun dr dl y ha => hn ⟨dr, dl, y, ha⟩
  rw [coverState_of_atRest hrest] at hd
  split at hd <;> cases d <;> cases hd

end ImpulseAux

open ImpulseAux SafetyAux

/-- An impulse given while the gate moves can start it. The installation has opened all but the last second of leaf B when the
impulse is given, and the next poll is the one at which that second is over: the movement ends and leaves the impulse in the slot,
and the next step resolves it to a closing, as if it had been given at rest. -/
theorem impulse_starts :
    ¬∀ (early : List Call) (a b : MotorSettings) (locked : Bool) (events later : List Event),
      let t₀ := after early a b locked events
      (∃ d : Direction, t₀.gate.controls.coverState = d.coverState) → t₀.gate.controls.windLocked = false →
        (∀ c, .call c ∈ later → ¬c.Commands) →
        let t := run Task.next (t₀.call .impulse) later
        t.gate.movements = t₀.gate.movements ∧
          (t.gate.controls.command = none → t.NotMoving ∧ ∀ p, t.gate.board.levels p = false) := by
  intro h
  have hm := (h [] (settingsOf leafA 0) (settingsOf leafB 0) false
    [.call .open, .poll 0 steady, .poll (fromSecs 3) steady, .poll (fromSecs 13) steady]
    [.poll (fromSecs 3) steady, .poll 0 steady] ⟨.opening, by decide +kernel⟩ (by decide +kernel) (by simp)).1
  revert hm
  decide +kernel

/-- An impulse given while the gate moves stops it and starts nothing, in every run in which no poll finds it in the slot and has
its timer end the movement first: no movement is started after it, the next poll takes it, and once it is taken the gate does not
move and every relay is released. -/
theorem impulse_stops (early : List Call) (a b : MotorSettings) (locked : Bool) (events later : List Event)
    (hmoving : ∃ d : Direction, (after early a b locked events).gate.controls.coverState = d.coverState)
    (hl : (after early a b locked events).gate.controls.windLocked = false)
    (hok : Allowed Task.next ImpulseServed ((after early a b locked events).call .impulse) later) :
    let t₀ := after early a b locked events
    let t := run Task.next (t₀.call .impulse) later
    t.gate.movements = t₀.gate.movements ∧
      (t.gate.controls.command = some .impulse ∨
        t.gate.controls.command = none ∧ t.NotMoving ∧ ∀ p, t.gate.board.levels p = false) ∧
      ∀ sleep lag, ImpulseServed t (.poll sleep lag) → (t.next (.poll sleep lag)).gate.controls.command = none := by
  intro t₀ t
  have hshape : t₀.Holds Shape := shape_after early a b locked events
  have hshape' : t.Holds Shape := shape_step.always shape_call shape_wait (shape_call t₀ .impulse hshape) later
  have hwaits : Waits t₀.gate.movements (t₀.call .impulse) := by
    obtain ⟨d, hd⟩ := hmoving
    obtain ⟨dr, dl, y, ha⟩ := moving_of_coverState hshape hd
    refine ⟨?_, ?_, ⟨dr, dl, y, ha⟩, rfl⟩ <;>
      simp [t₀, Task.call, Call.apply, Controls.impulse, Controls.sendUnlessLocked, hl, Controls.send]
  have hrun : Waits t₀.gate.movements t ∨ Served t₀.gate.movements t := served_run hwaits hok
  refine ⟨hrun.elim (·.movements) (·.movements), hrun.imp (·.command) fun h => ⟨h.command, fun dr dl y ha => ?_, ?_⟩,
    fun sleep lag he => (served_poll hrun he).command⟩
  · have hcalm := h.stopped.calm
    rw [ha] at hcalm
    exact hcalm
  · exact stopped_low h.stopped hshape'

/-- An impulse to the installation, one second into an opening. -/
theorem impulse_stops_opening :
    let t := after [] (settingsOf leafA 0) (settingsOf leafB 0) false [.call .open, .poll 0 steady]
    t.gate.movements = 1 ∧ ((t.call .impulse).next (.poll (fromSecs 1) steady)).gate.movements = 1 ∧
      ((t.call .impulse).next (.poll (fromSecs 1) steady)).gate.controls.command = none :=
  have h := impulse_stops [] (settingsOf leafA 0) (settingsOf leafB 0) false [.call .open, .poll 0 steady]
    [.poll (fromSecs 1) steady] ⟨.opening, by decide +kernel⟩ (by decide +kernel) ⟨fun _ => by decide +kernel, trivial⟩
  ⟨by decide +kernel, h.1.trans (by decide +kernel), by decide +kernel⟩

end GateLink
