import GateLink.Lemmas.Motor
import GateLink.Steps

/-!
# What the gate operations do

The frame of every operation of the gate: what it leaves of the motors, the pins, the controls and the pending command. The
lemmas are simp lemmas, so that later proofs do not unfold the operations.
-/

namespace GateLink

namespace Drive

variable (dr : Drive) (leaf : Leaf) (p : Phase)

@[simp] theorem phase_setPhase_self : (dr.setPhase leaf p).phase leaf = p := by cases leaf <;> rfl

@[simp] theorem direction_setPhase : (dr.setPhase leaf p).direction = dr.direction := by cases leaf <;> rfl

@[simp] theorem moved_setPhase : (dr.setPhase leaf p).moved = dr.moved := by cases leaf <;> rfl

theorem phase_setPhase_other {leaf leaf' : Leaf} (h : leaf' ≠ leaf) : (dr.setPhase leaf p).phase leaf' = dr.phase leaf' := by
  cases leaf <;> cases leaf' <;> first | rfl | exact absurd rfl h

@[simp] theorem phase_setMoved : dr.setMoved.phase leaf = dr.phase leaf := by cases leaf <;> rfl

@[simp] theorem direction_setMoved : dr.setMoved.direction = dr.direction := rfl

@[simp] theorem moved_setMoved : dr.setMoved.moved = true := rfl

end Drive

namespace Gate

variable (g : Gate) (leaf : Leaf)

/-! ## Stores, records and readings -/

@[simp] theorem modify_controls (f : Controls → Controls) : (g.modify f).controls = f g.controls := rfl
@[simp] theorem modify_motor (f : Controls → Controls) : (g.modify f).motor leaf = g.motor leaf := by cases leaf <;> rfl
@[simp] theorem modify_pending (f : Controls → Controls) : (g.modify f).pending = g.pending := rfl
@[simp] theorem modify_levels (f : Controls → Controls) : (g.modify f).board.levels = g.board.levels := rfl
@[simp] theorem modify_trace (f : Controls → Controls) : (g.modify f).board.trace = g.board.trace := rfl
@[simp] theorem modify_clock (f : Controls → Controls) : (g.modify f).board.clock = g.board.clock := rfl

@[simp] theorem record_controls (o : Output) : (g.record o).controls = g.controls := rfl
@[simp] theorem record_motor (o : Output) : (g.record o).motor leaf = g.motor leaf := by cases leaf <;> rfl
@[simp] theorem record_pending (o : Output) : (g.record o).pending = g.pending := rfl
@[simp] theorem record_levels (o : Output) : (g.record o).board.levels = g.board.levels := rfl
@[simp] theorem record_clock (o : Output) : (g.record o).board.clock = g.board.clock := rfl
@[simp] theorem record_trace (o : Output) :
    (g.record o).board.trace =
      { output := o, time := g.now, levels := g.board.levels, controls := g.controls } :: g.board.trace := rfl

@[simp] theorem tick_controls : g.tick.controls = g.controls := rfl
@[simp] theorem tick_motor : g.tick.motor leaf = g.motor leaf := by cases leaf <;> rfl
@[simp] theorem tick_pending : g.tick.pending = g.pending := rfl
@[simp] theorem tick_levels : g.tick.board.levels = g.board.levels := rfl
@[simp] theorem tick_trace : g.tick.board.trace = g.board.trace := rfl
@[simp] theorem tick_clock : g.tick.board.clock = g.board.clock.tick := rfl

@[simp] theorem pending_motor (c : Option GateCommand) : ({ g with pending := c } : Gate).motor leaf = g.motor leaf := by
  cases leaf <;> rfl

@[simp] theorem board_motor (bd : Board) : ({ g with board := bd } : Gate).motor leaf = g.motor leaf := by
  cases leaf <;> rfl

@[simp] theorem pending_controls (c : Option GateCommand) : ({ g with pending := c } : Gate).controls = g.controls := rfl

@[simp] theorem board_controls (bd : Board) : ({ g with board := bd } : Gate).controls = bd.controls := rfl

/-! ## Taking a signal -/

@[simp] theorem takeCommand_controls : g.takeCommand.controls = { g.controls with command := none } := rfl
@[simp] theorem takeCommand_board : g.takeCommand.board = g.board.modify ({ · with command := none }) := rfl
@[simp] theorem takeCommand_motor : g.takeCommand.motor leaf = g.motor leaf := by cases leaf <;> rfl
@[simp] theorem takeCommand_pending : g.takeCommand.pending = g.pending := rfl

@[simp] theorem takeBarrierChanged_controls :
    g.takeBarrierChanged.controls = { g.controls with barrierChanged := none } := rfl
@[simp] theorem takeBarrierChanged_board :
    g.takeBarrierChanged.board = g.board.modify ({ · with barrierChanged := none }) := rfl
@[simp] theorem takeBarrierChanged_motor : g.takeBarrierChanged.motor leaf = g.motor leaf := by cases leaf <;> rfl
@[simp] theorem takeBarrierChanged_pending : g.takeBarrierChanged.pending = g.pending := rfl

@[simp] theorem takeWindLockReset_controls :
    g.takeWindLockReset.controls = { g.controls with windLockReset := none } := rfl
@[simp] theorem takeWindLockReset_board :
    g.takeWindLockReset.board = g.board.modify ({ · with windLockReset := none }) := rfl
@[simp] theorem takeWindLockReset_motor : g.takeWindLockReset.motor leaf = g.motor leaf := by cases leaf <;> rfl
@[simp] theorem takeWindLockReset_pending : g.takeWindLockReset.pending = g.pending := rfl

/-! ## Starting and stopping a leaf -/

@[simp] theorem stopLeaf_board : (g.stopLeaf leaf).board = ((g.motor leaf).stop g.board).2 := rfl

@[simp] theorem stopLeaf_motor_self : (g.stopLeaf leaf).motor leaf = ((g.motor leaf).stop g.board).1 := by
  cases leaf <;> rfl

theorem stopLeaf_motor_other {leaf leaf' : Leaf} (h : leaf' ≠ leaf) : (g.stopLeaf leaf).motor leaf' = g.motor leaf' := by
  cases leaf <;> cases leaf' <;> first | rfl | exact absurd rfl h

@[simp] theorem stopLeaf_controls : (g.stopLeaf leaf).controls = g.controls := Motor.stop_controls _ _

@[simp] theorem stopLeaf_pending : (g.stopLeaf leaf).pending = g.pending := by cases leaf <;> rfl

@[simp] theorem startLeaf_board (d : Direction) : (g.startLeaf leaf d).board = ((g.motor leaf).start d g.board).2 := rfl

@[simp] theorem startLeaf_motor_self (d : Direction) :
    (g.startLeaf leaf d).motor leaf = ((g.motor leaf).start d g.board).1 := by
  cases leaf <;> rfl

theorem startLeaf_motor_other {leaf leaf' : Leaf} (h : leaf' ≠ leaf) (d : Direction) :
    (g.startLeaf leaf d).motor leaf' = g.motor leaf' := by
  cases leaf <;> cases leaf' <;> first | rfl | exact absurd rfl h

@[simp] theorem startLeaf_pending (d : Direction) : (g.startLeaf leaf d).pending = g.pending := by cases leaf <;> rfl

@[simp] theorem startLeaf_controls (d : Direction) : (g.startLeaf leaf d).controls = g.controls := Motor.start_controls _ _ _

/-- A stop of an idle leaf does nothing. -/
theorem stopLeaf_of_idle {g : Gate} {leaf : Leaf} (h : (g.motor leaf).state = .idle) : g.stopLeaf leaf = g := by
  have hs := Motor.stop_of_idle h g.board
  unfold Gate.stopLeaf
  rw [hs]
  cases leaf <;> rfl

/-! ## The loop over the leaves -/

@[simp] theorem passLeaf_controls (dr : Drive) (now : Instant) : (g.passLeaf dr leaf now).1.controls = g.controls := by
  have hstop (g' : Gate) (dr' : Drive) : (g'.stopIfDue dr' leaf now).1.controls = g'.controls := by
    unfold Gate.stopIfDue
    split
    · split <;> simp
    · rfl
  unfold Gate.passLeaf Gate.startIfDue
  rw [hstop]
  split
  · split
    · split <;> simp
    · rfl
  · rfl

@[simp] theorem passLeaf_pending (dr : Drive) (now : Instant) : (g.passLeaf dr leaf now).1.pending = g.pending := by
  have hstop (g' : Gate) (dr' : Drive) : (g'.stopIfDue dr' leaf now).1.pending = g'.pending := by
    unfold Gate.stopIfDue
    split
    · split <;> simp
    · rfl
  unfold Gate.passLeaf Gate.startIfDue
  rw [hstop]
  split
  · split
    · split <;> simp
    · rfl
  · rfl

@[simp] theorem pass_controls (dr : Drive) : (g.pass dr).1.controls = g.controls := by simp [Gate.pass]

@[simp] theorem pass_pending (dr : Drive) : (g.pass dr).1.pending = g.pending := by simp [Gate.pass]

/-! ## The begin and the end of a movement, the end of a step -/

@[simp] theorem begin_controls (d : Direction) : (g.begin d).controls = g.controls.setDirection d := rfl
@[simp] theorem begin_motor (d : Direction) : (g.begin d).motor leaf = g.motor leaf := by cases leaf <;> rfl
@[simp] theorem begin_pending (d : Direction) : (g.begin d).pending = g.pending := rfl
@[simp] theorem begin_levels (d : Direction) : (g.begin d).board.levels = g.board.levels := rfl
theorem phase_initialDrive (d : Direction) : (g.initialDrive d).phase leaf = plan (g.motor leaf) d g.now := by
  cases leaf <;> rfl

@[simp] theorem initialDrive_direction (d : Direction) : (g.initialDrive d).direction = d := rfl

/-- What holds once both leaves are stopped, whether or not the bypass is cleared and with the end of the movement noted down, holds
after a movement. -/
theorem endDrive_rule {P : Gate → Prop} {g : Gate} (h : P ((g.stopLeaf .a).stopLeaf .b))
    (hbypass : ∀ g : Gate, P g → P (g.modify ({ · with barrierBypass := false })))
    (hfinish : ∀ g : Gate, P g → P (g.record .finish)) (dr : Drive) : P (g.endDrive dr) := by
  unfold Gate.endDrive
  cases dr.moved with
  | false => exact hfinish _ h
  | true => exact hfinish _ (hbypass _ h)

/-- The controls after a movement: a bypass that was used is cleared. -/
theorem endDrive_controls (dr : Drive) :
    (g.endDrive dr).controls =
      { g.controls with barrierBypass := if dr.moved then false else g.controls.barrierBypass } := by
  unfold Gate.endDrive
  cases dr.moved <;> simp

@[simp] theorem endDrive_pending (dr : Drive) : (g.endDrive dr).pending = g.pending := by
  unfold Gate.endDrive
  cases dr.moved <;> simp

theorem endDrive_motor (dr : Drive) (leaf : Leaf) :
    (g.endDrive dr).motor leaf = ((g.stopLeaf .a).stopLeaf .b).motor leaf := by
  unfold Gate.endDrive
  cases dr.moved <;> simp

theorem endDrive_levels (dr : Drive) : (g.endDrive dr).board.levels = ((g.stopLeaf .a).stopLeaf .b).board.levels := by
  unfold Gate.endDrive
  cases dr.moved <;> rfl

theorem endDrive_clock (dr : Drive) : (g.endDrive dr).board.clock = ((g.stopLeaf .a).stopLeaf .b).board.clock := by
  unfold Gate.endDrive
  cases dr.moved <;> rfl

/-- The entry that ends a movement is on top of what the stop of the leaves wrote, and notes the controls after it. -/
theorem endDrive_trace (dr : Drive) :
    (g.endDrive dr).board.trace =
      { output := .finish, time := ((g.stopLeaf .a).stopLeaf .b).now, levels := ((g.stopLeaf .a).stopLeaf .b).board.levels,
        controls := (g.endDrive dr).controls } :: ((g.stopLeaf .a).stopLeaf .b).board.trace := by
  unfold Gate.endDrive
  cases dr.moved <;> rfl

/-- The controls a step settles with. -/
theorem endStep_controls (result : Option GateCommand) :
    (g.endStep result).gate.controls =
      { g.controls with currentDirection := .dirIdle, position := g.snapshot.classify } := rfl

@[simp] theorem endStep_pending (result : Option GateCommand) : (g.endStep result).gate.pending = result := rfl
@[simp] theorem endStep_await (result : Option GateCommand) : (g.endStep result).await = .settled g.snapshot := rfl
@[simp] theorem endStep_levels (result : Option GateCommand) :
    (g.endStep result).gate.board.levels = g.board.levels := rfl
@[simp] theorem endStep_clock (result : Option GateCommand) :
    (g.endStep result).gate.board.clock = g.board.clock := rfl
@[simp] theorem endStep_motor (result : Option GateCommand) : (g.endStep result).gate.motor leaf = g.motor leaf := by
  cases leaf <;> rfl
@[simp] theorem endStep_trace (result : Option GateCommand) :
    (g.endStep result).gate.board.trace =
      { output := .notify, time := g.now, levels := g.board.levels,
        controls := { g.controls with currentDirection := .dirIdle, position := g.snapshot.classify } } ::
        g.board.trace := rfl

end Gate

/-- The classification looks at the positions only. -/
theorem Snapshot.classify_congr {s s' : Snapshot} (ha : s'.leafAPosition = s.leafAPosition)
    (hb : s'.leafBPosition = s.leafBPosition) : s'.classify = s.classify := by
  unfold Snapshot.classify
  rw [ha, hb]

theorem Snapshot.classify_eq_posClosed_iff (s : Snapshot) :
    s.classify = .posClosed ↔ s.leafAPosition = 0 ∧ s.leafBPosition = 0 := by
  unfold Snapshot.classify
  by_cases h : s.leafAPosition = 0 ∧ s.leafBPosition = 0
  · simp only [if_pos h, true_iff]
    exact h
  · rw [if_neg h]
    refine iff_of_false ?_ h
    split <;> nofun

/-! ## Controls -/

namespace Controls

variable (c : Controls)

@[simp] theorem blocked_setDirection (d d' : Direction) : (c.setDirection d).blocked d' = c.blocked d' := rfl

theorem blocked_eq_none_iff (d : Direction) :
    c.blocked d = none ↔
      (c.barrierBypass = true ∨ (c.barrier1Active = false ∧ (d = .closing → c.barrier2Active = false))) ∧
        (d = .closing → c.windLocked = false) := by
  unfold blocked
  cases d <;> cases c.barrierBypass <;> cases c.barrier1Active <;> cases c.barrier2Active <;> cases c.windLocked <;> simp

/-- Disarming the bypass unblocks nothing. -/
theorem blocked_bypass_false {c : Controls} {d : Direction} (h : c.blocked d ≠ none) :
    ({ c with barrierBypass := false } : Controls).blocked d ≠ none := by
  rw [Ne, blocked_eq_none_iff] at h ⊢
  intro h'
  exact h ⟨Or.inr (h'.1.resolve_left (by simp)), h'.2⟩

/-- A command of the normal inputs is ignored if the wind lock is engaged, and sent otherwise. -/
theorem sendUnlessLocked_cases (command : GateCommand) :
    (c.windLocked = true ∧ c.sendUnlessLocked command = c) ∨
      (c.windLocked = false ∧ c.sendUnlessLocked command = c.send command) := by
  unfold sendUnlessLocked
  cases hl : c.windLocked
  · exact Or.inr ⟨rfl, rfl⟩
  · exact Or.inl ⟨rfl, rfl⟩

/-- Clearing light barrier 1 sends an OPEN if the wind lock is engaged; nothing else that happens to a barrier sends. -/
theorem barrier1Set_cases (active : Bool) :
    ((active = true ∨ c.windLocked = false) ∧
        c.barrier1Set active = { c with barrier1Active := active, barrierChanged := some () }) ∨
      (active = false ∧ c.windLocked = true ∧
        c.barrier1Set active = ({ c with barrier1Active := false, barrierChanged := some () } : Controls).send .open) := by
  unfold barrier1Set
  cases active <;> cases hl : c.windLocked <;> simp

end Controls

/-- What the gate does to the inputs: it takes a command, and it clears a bypass. -/
structure Controls.InputsKept (c c' : Controls) : Prop where
  windLocked : c'.windLocked = c.windLocked
  barrier1Active : c'.barrier1Active = c.barrier1Active
  barrier2Active : c'.barrier2Active = c.barrier2Active
  barrierBypass : c'.barrierBypass = c.barrierBypass ∨ c'.barrierBypass = false
  command : c'.command = c.command ∨ c'.command = none

theorem Controls.InputsKept.refl (c : Controls) : c.InputsKept c := ⟨rfl, rfl, rfl, Or.inl rfl, Or.inl rfl⟩

/-- No block changes a safety input, other than the bypass, or sends a command. -/
theorem inputs_step {g g' : Gate} {p p' : Point} (hs : Step g p g' p') : g.controls.InputsKept g'.controls := by
  cases hs with
  | takeCommand hw hc => exact ⟨rfl, rfl, rfl, Or.inl rfl, Or.inr rfl⟩
  | sameCommand hc => exact ⟨rfl, rfl, rfl, Or.inl rfl, Or.inr rfl⟩
  | interrupt hc hne => exact ⟨rfl, rfl, rfl, Or.inl rfl, Or.inr rfl⟩
  | stop hc =>
    rw [Gate.stopLeaf_controls, Gate.stopLeaf_controls]
    exact .refl _
  | start hp hn hr =>
    rw [Gate.startLeaf_controls]
    exact .refl _
  | complete hp hn =>
    rw [Gate.stopLeaf_controls]
    exact .refl _
  | @finish dr result =>
    rw [Gate.endDrive_controls]
    refine ⟨rfl, rfl, rfl, ?_, Or.inl rfl⟩
    cases dr.moved with
    | false => exact Or.inl rfl
    | true => exact Or.inr rfl
  | _ => exact ⟨rfl, rfl, rfl, Or.inl rfl, Or.inl rfl⟩

/-- A command for the other direction is not one for this one. -/
theorem commandFor_injective {d d' : Direction} (h : commandFor d = commandFor d') : d = d' := by
  cases d <;> cases d' <;> first | rfl | cases h

end GateLink
