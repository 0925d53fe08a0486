import GateLink.Lemmas.Log
import GateLink.Lemmas.Timing
import GateLink.Theorems.Safety
import GateLink.Config

/-!
# An impulse at rest

An impulse that finds the gate at rest is resolved by two cached values, the coarse position and the last direction. Both agree with what
they stand for whenever the gate is at rest: the position with the motors (`Gate.AtRest`), the last direction with the movement that was
started last (`lastDirection_after`). So the impulse moves the gate, and the right way (`impulse_moves`).
-/

namespace GateLink

open Machine

/-- The direction of the movement that an entry of the trace starts, if it does. -/
def Entry.started (e : Entry) : Option Direction :=
  match e.output with
  | .start d => some d
  | _ => none

/-- The direction of the movement that was started last. -/
def latestStart (trace : List Entry) : Option Direction := trace.findSome? Entry.started

/-- Which way an impulse is to move a gate at rest: away from the end that both leaves are at, and otherwise back. -/
def Gate.impulseDirection (g : Gate) : Direction :=
  if g.a.position = 0 ∧ g.b.position = 0 then .opening
  else if g.a.position = 255 ∧ g.b.position = 255 then .closing
  else
    match latestStart g.board.trace with
    | some d => d.other
    | none => .opening

/-- It is decided at every suspension. -/
instance decidableListens (g : Gate) : (w : Await) → Decidable (w.Listens g)
  | .settled _ => inferInstanceAs (Decidable (g.pending = none))
  | .idle => isTrue trivial
  | .moving _ _ _ => isFalse id

namespace AtRestAux

open SafetyAux

/-- The last direction of the controls is the one of the movement that was started last. -/
def LastDirection (g : Gate) : Prop := g.controls.lastDirection = (latestStart g.board.trace).elim .dirClosing Direction.dir

/-- Stopping a motor starts no movement. -/
theorem stop_latestStart {leaf : Leaf} (m : Motor leaf) (bd : Board) : latestStart (m.stop bd).2.trace = latestStart bd.trace := by
  cases hs : m.state with
  | idle => rw [Motor.stop_of_idle hs]
  | running d t =>
    rw [Motor.stop_of_running hs]
    rfl

/-- Starting a motor notes no start of its own: that of the movement is noted before. -/
theorem start_latestStart {leaf : Leaf} (m : Motor leaf) (d : Direction) (bd : Board) :
    latestStart (m.start d bd).2.trace = latestStart bd.trace := by
  have h : latestStart (m.settle bd).2.trace = latestStart bd.trace := stop_latestStart m bd
  cases d <;> exact h

/-- Stopping both leaves starts no movement. -/
theorem stopBoth_latestStart (g : Gate) :
    latestStart ((g.stopLeaf .a).stopLeaf .b).board.trace = latestStart g.board.trace :=
  (stop_latestStart _ _).trans (stop_latestStart _ _)

/-- Only the begin of a movement changes the last direction, and it is the one that notes a start. -/
theorem lastDirection_step : Preserved (fun g _ => LastDirection g) := by
  intro g p g' p' hs h
  unfold LastDirection at h ⊢
  cases hs with
  | begin hc hb => rfl
  | stop hc =>
    rw [stopBoth_latestStart, Gate.stopLeaf_controls, Gate.stopLeaf_controls]
    exact h
  | @start dr leaf now at' r hp hn hr =>
    rw [Gate.startLeaf_controls, Gate.startLeaf_board, start_latestStart]
    exact h
  | @complete dr leaf now at' hp hn =>
    rw [Gate.stopLeaf_controls, Gate.stopLeaf_board, stop_latestStart]
    exact h
  | @finish dr result =>
    have hlatest : latestStart (g.endDrive dr).board.trace = latestStart ((g.stopLeaf .a).stopLeaf .b).board.trace := by
      rw [Gate.endDrive_trace]
      rfl
    rw [Gate.endDrive_controls, hlatest, stopBoth_latestStart]
    exact h
  | _ => exact h

/-- In every reachable state. -/
theorem lastDirection_after (early : List Call) (a b : MotorSettings) (locked : Bool) (events : List Event) :
    LastDirection (after early a b locked events).gate := by
  have hboot : (boot early a b locked).Holds fun g _ => LastDirection g := by
    have hearly : (early.foldl (fun c call => call.apply c) Controls.new).lastDirection = .dirClosing :=
      @run_always Controls Call (fun c call => call.apply c) (fun c => c.lastDirection = .dirClosing)
        (fun c call hc => (call.apply_published c).2.1.trans hc) _ rfl early
    exact hearly
  exact Preserved.after lastDirection_step (fun t c h => (c.apply_published t.gate.controls).2.1.trans h) (fun _ _ _ h => h) hboot
    events

/-- At rest the cached values resolve an impulse to the direction it is to move the gate in. -/
theorem resolveImpulse_eq {g : Gate} (h : g.AtRest) (hd : LastDirection g) :
    g.controls.resolveImpulse .impulse = commandFor g.impulseDirection := by
  have hpos : g.controls.position = if g.a.position = 0 ∧ g.b.position = 0 then .posClosed
      else if g.a.position = 255 ∧ g.b.position = 255 then .posOpen else .posPartial := h.position
  unfold Controls.resolveImpulse Gate.impulseDirection
  unfold LastDirection at hd
  rw [if_neg (by simp), hpos, hd]
  split_ifs
  · rfl
  · rfl
  · cases latestStart g.board.trace with
    | none => rfl
    | some d => cases d <;> rfl

/-- In the direction an impulse is to move the gate in, a leaf is not at its end. -/
theorem remaining_impulseDirection (g : Gate) : ∃ leaf, (g.motor leaf).remaining g.impulseDirection ≠ 0 := by
  have hleaf {d : Direction} (h : ¬(g.a.position = d.endPosition ∧ g.b.position = d.endPosition)) :
      ∃ leaf, (g.motor leaf).remaining d ≠ 0 := by
    by_contra hn
    push Not at hn
    exact h ⟨Motor.position_of_remaining (hn .a), Motor.position_of_remaining (hn .b)⟩
  have hopen (h : ¬(g.a.position = 255 ∧ g.b.position = 255)) : ∃ leaf, (g.motor leaf).remaining .opening ≠ 0 := hleaf h
  have hclose (h : ¬(g.a.position = 0 ∧ g.b.position = 0)) : ∃ leaf, (g.motor leaf).remaining .closing ≠ 0 := hleaf h
  unfold Gate.impulseDirection
  split_ifs with h0 h255
  · exact hopen fun h => by
      have hz : (0 : U8) = 255 := h0.1.symm.trans h.1
      exact absurd hz (by decide)
  · exact hclose h0
  · cases latestStart g.board.trace with
    | none => exact hopen h255
    | some d =>
      cases d with
      | opening => exact hclose h0
      | closing => exact hopen h255

/-- A gate that listens polls the `select` of `step`. -/
theorem advance_of_listens {t : Task} (h : t.await.Listens t.gate) : t.advance = t.gate.idleSelect := by
  unfold Task.advance
  cases ha : t.await with
  | settled s =>
    rw [ha] at h
    have hp : t.gate.pending = none := h
    simp only [hp]
  | idle => rfl
  | moving dr dl y =>
    rw [ha] at h
    exact h.elim

/-- A gate that listens is at rest. -/
theorem atRest_of_listens {t : Task} (hs : t.Holds Shape) (h : t.await.Listens t.gate) : t.gate.AtRest :=
  atRest_of_shape hs fun dr dl y ha => by
    rw [ha] at h
    exact h

/-- An impulse that is taken at rest starts the movement, and whatever the poll does after that is noted on top of the start. -/
theorem poll_starts {t : Task} (hs : t.Holds Shape) (hd : LastDirection t.gate) (hw : t.await.Listens t.gate)
    (hc : t.gate.controls.command = some .impulse) (hb : t.gate.controls.blocked t.gate.impulseDirection = none) :
    ∃ e : Entry, e.output = .start t.gate.impulseDirection ∧ e :: t.gate.board.trace <:+ t.poll.gate.board.trace := by
  have hd' : LastDirection t.gate.takeCommand := hd
  have hrest : t.gate.takeCommand.AtRest :=
    (atRest_of_listens hs hw).congr (by simp) rfl rfl rfl (atRest_of_listens hs hw).pending
  have hresolve : t.gate.takeCommand.controls.resolveImpulse .impulse = commandFor t.gate.impulseDirection :=
    resolveImpulse_eq hrest hd'
  have hblocked : t.gate.takeCommand.controls.blocked t.gate.impulseDirection = none := hb
  refine ⟨⟨.start t.gate.impulseDirection, t.gate.now, t.gate.board.levels,
    t.gate.takeCommand.controls.setDirection t.gate.impulseDirection⟩, rfl, ?_⟩
  -- what is on top of the start after the first turn stays there for the rest of the poll
  refine loop_succ_invariant (fun _ h => (suffix_step _).advance h) ?_ _
  rw [advance_of_listens hw, Gate.idleSelect, hc]
  refine Task.Holds.proceed (I := fun g _ => _ <:+ g.board.trace) ?_
  have hdrive : t.gate.takeCommand.execute .impulse = t.gate.takeCommand.drive t.gate.impulseDirection := by
    unfold Gate.execute
    rw [hresolve]
    cases t.gate.impulseDirection <;> rfl
  rw [hdrive, Gate.drive, hblocked]
  exact (suffix_step _).within.driveLoop (List.suffix_cons _ _)

end AtRestAux

open AtRestAux

/-- An impulse at rest always moves the gate, and the right way. In every run: if the gate listens for a command, the wind lock is off,
both barriers are clear and an impulse is in the slot, then the next poll takes it and starts a movement, opening if both leaves are at 0,
closing if both are at 255, and otherwise opposite to the movement that was started last (opening if none was since boot); and in that
direction a leaf is not at its end. -/
theorem impulse_moves (early : List Call) (a b : MotorSettings) (locked : Bool) (events : List Event)
    (hrest : (after early a b locked events).await.Listens (after early a b locked events).gate)
    (hc : (after early a b locked events).gate.controls.command = some .impulse)
    (hl : (after early a b locked events).gate.controls.windLocked = false)
    (h1 : (after early a b locked events).gate.controls.barrier1Active = false)
    (h2 : (after early a b locked events).gate.controls.barrier2Active = false) (sleep : Duration) (lag : Nat → Duration) :
    let t := after early a b locked events
    let d := t.gate.impulseDirection
    (∃ leaf, (t.gate.motor leaf).remaining d ≠ 0) ∧
      ∃ e : Entry, e.output = .start d ∧ e :: t.gate.board.trace <:+ (t.wait sleep lag).poll.gate.board.trace := by
  intro t d
  refine ⟨remaining_impulseDirection t.gate, ?_⟩
  have hblocked : t.gate.controls.blocked d = none :=
    (Controls.blocked_eq_none_iff _ _).mpr ⟨Or.inr ⟨h1, fun _ => h2⟩, fun _ => hl⟩
  exact poll_starts (t := t.wait sleep lag) (shape_wait t sleep lag (shape_after early a b locked events))
    (lastDirection_after early a b locked events) hrest hc hblocked

/-- An impulse to the installation, stopped two seconds into an opening: it closes. -/
theorem impulse_moves_back :
    let t := after [] (settingsOf leafA 0) (settingsOf leafB 0) false
      [.call .open, .poll 0 steady, .call .stop, .poll (fromSecs 2) steady, .call .impulse]
    t.gate.impulseDirection = .closing ∧
      ∃ e : Entry, e.output = .start .closing ∧ e :: t.gate.board.trace <:+ (t.wait 0 steady).poll.gate.board.trace :=
  have hd : (after [] (settingsOf leafA 0) (settingsOf leafB 0) false
      [.call .open, .poll 0 steady, .call .stop, .poll (fromSecs 2) steady, .call .impulse]).gate.impulseDirection = .closing := by
    decide +kernel
  have h := impulse_moves [] (settingsOf leafA 0) (settingsOf leafB 0) false
    [.call .open, .poll 0 steady, .call .stop, .poll (fromSecs 2) steady, .call .impulse] (by decide +kernel) (by decide +kernel)
    (by decide +kernel) (by decide +kernel) (by decide +kernel) 0 steady
  ⟨hd, by rw [← hd]; exact h.2⟩

end GateLink
