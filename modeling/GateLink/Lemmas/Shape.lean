import GateLink.Lemmas.Gate

/-!
# The shape of the gate

The representation invariant that ties the levels of the pins, the state of each motor, the phase of each leaf, the direction
that is announced and the coarse position together, at every point of the task (`Shape`), and its proof for every block
(`shape_step`), every call and every sleep. Nothing in it depends on the time.
-/

namespace GateLink

open Machine

/-- Both motors are wired to their pins. -/
def Gate.Wired (g : Gate) : Prop := ∀ leaf, (g.motor leaf).Wired g.board.levels

/-- Both motors are idle. -/
def Gate.Still (g : Gate) : Prop := ∀ leaf, (g.motor leaf).state = .idle

/-- The state of a leaf's motor is what its phase says. -/
def PhaseOk (d : Direction) (p : Phase) (s : MotorState) : Prop :=
  match p with
  | .running _ => ∃ since, s = .running d since
  | _ => s = .idle

/-- What `drive` hands back is a command that starts a movement, or nothing. -/
def HandedBack (result : Option GateCommand) : Prop := ∀ c, result = some c → ∃ d, c = commandFor d

/-- The gate between two movements, with its state published. -/
structure Gate.AtRest (g : Gate) : Prop where
  wired : g.Wired
  still : g.Still
  direction : g.controls.currentDirection = .dirIdle
  position : g.controls.position = g.snapshot.classify
  pending : HandedBack g.pending

/-- The gate within a movement. -/
structure Gate.InMotion (g : Gate) (dr : Drive) : Prop where
  wired : g.Wired
  phase : ∀ leaf, PhaseOk dr.direction (dr.phase leaf) (g.motor leaf).state
  direction : g.controls.currentDirection = dr.direction.dir
  pending : g.pending = none

/-- The shape of the gate at every point of the task. -/
def Shape (g : Gate) : Point → Prop
  | .await (.settled s) =>
    g.AtRest ∧ s.leafAPosition = g.a.position ∧ s.leafBPosition = g.b.position
  | .await .idle => g.AtRest ∧ g.pending = none
  | .await (.moving dr _ _) => g.InMotion dr
  | .execute _ => g.AtRest ∧ g.pending = none
  | .top dr => g.InMotion dr
  | .starting dr _ _ => g.InMotion dr
  | .stopping dr _ _ => g.InMotion dr
  | .over dr result => g.InMotion dr ∧ HandedBack result
  | .ended result => g.Wired ∧ g.Still ∧ HandedBack result

/-! ## Wiring -/

theorem Gate.Wired.stopLeaf {g : Gate} (h : g.Wired) (leaf : Leaf) : (g.stopLeaf leaf).Wired := by
  intro leaf' d
  by_cases hl : leaf' = leaf
  · subst hl
    rw [stopLeaf_motor_self, stopLeaf_board]
    exact (h leaf').stop d
  · rw [stopLeaf_motor_other g hl, stopLeaf_board, Motor.stop_levels_other _ _ (p := ⟨leaf', d⟩) hl]
    exact h leaf' d

theorem Gate.Wired.startLeaf {g : Gate} (h : g.Wired) {leaf : Leaf} (hs : (g.motor leaf).state = .idle)
    (d : Direction) : (g.startLeaf leaf d).Wired := by
  intro leaf' d'
  by_cases hl : leaf' = leaf
  · subst hl
    rw [startLeaf_motor_self, startLeaf_board, Motor.start_of_idle hs]
    exact Motor.Wired.start d d'
  · rw [startLeaf_motor_other g hl, startLeaf_board, Motor.start_of_idle hs,
      Motor.started_levels_other _ _ _ (p := ⟨leaf', d'⟩) hl]
    exact h leaf' d'

/-- A wired gate with idle motors has every relay released. -/
theorem Gate.Wired.low {g : Gate} (h : g.Wired) (hs : g.Still) (p : Pin) : g.board.levels p = false := by
  obtain ⟨leaf, d⟩ := p
  rw [h leaf d]
  exact Motor.energized_idle (hs leaf) d

/-- Within a movement, every relay that is energized belongs to its direction. -/
theorem Gate.InMotion.of_high {g : Gate} {dr : Drive} (h : g.InMotion dr) {p : Pin} (hp : g.board.levels p = true) :
    p.direction = dr.direction := by
  obtain ⟨leaf, d⟩ := p
  rw [h.wired leaf d] at hp
  have hph := h.phase leaf
  unfold PhaseOk at hph
  split at hph
  · obtain ⟨t, ht⟩ := hph
    rw [Motor.energized_running ht] at hp
    exact (beq_iff_eq.mp hp).symm
  · rw [Motor.energized_idle hph] at hp
    cases hp

/-- A leaf that waits or is done has an idle motor. -/
theorem PhaseOk.idle {d : Direction} {p : Phase} {s : MotorState} (h : PhaseOk d p s) (hp : ∀ t, p ≠ .running t) :
    s = .idle := by
  cases p with
  | running t => exact absurd rfl (hp t)
  | waiting t => exact h
  | done => exact h

theorem stopBoth_still (g : Gate) : ((g.stopLeaf .a).stopLeaf .b).Still := by
  intro leaf
  cases leaf with
  | a =>
    rw [Gate.stopLeaf_motor_other _ (by nofun), Gate.stopLeaf_motor_self]
    exact Motor.stop_state _ _
  | b =>
    rw [Gate.stopLeaf_motor_self]
    exact Motor.stop_state _ _

/-- A stop of both leaves of a gate that stands still does nothing. -/
theorem Gate.Still.stopBoth {g : Gate} (h : g.Still) : (g.stopLeaf .a).stopLeaf .b = g := by
  rw [stopLeaf_of_idle (h .a), stopLeaf_of_idle (h .b)]

theorem HandedBack.none : HandedBack none := nofun

theorem handedBack_ok {c : GateCommand} : HandedBack (handedBack c) := by
  intro c' hc
  cases c <;> cases hc
  · exact ⟨.opening, rfl⟩
  · exact ⟨.closing, rfl⟩

/-! ## The blocks -/

/-- A change of the gate that leaves motors, levels, the announced direction and the pending command keeps it in motion. -/
theorem Gate.InMotion.congr {g g' : Gate} {dr : Drive} (h : g.InMotion dr) (hm : ∀ leaf, g'.motor leaf = g.motor leaf)
    (hl : g'.board.levels = g.board.levels) (hd : g'.controls.currentDirection = g.controls.currentDirection)
    (hp : g'.pending = g.pending) : g'.InMotion dr where
  wired := fun leaf => by rw [hm, hl]; exact h.wired leaf
  phase := fun leaf => by rw [hm]; exact h.phase leaf
  direction := hd.trans h.direction
  pending := hp.trans h.pending

/-- A change of the gate that leaves motors, levels, the published state and the pending command keeps it at rest. -/
theorem Gate.AtRest.congr {g g' : Gate} (h : g.AtRest) (hm : ∀ leaf, g'.motor leaf = g.motor leaf)
    (hl : g'.board.levels = g.board.levels) (hd : g'.controls.currentDirection = g.controls.currentDirection)
    (hpos : g'.controls.position = g.controls.position) (hp : HandedBack g'.pending) : g'.AtRest where
  wired := fun leaf => by rw [hm, hl]; exact h.wired leaf
  still := fun leaf => by rw [hm]; exact h.still leaf
  direction := hd.trans h.direction
  position := by
    rw [hpos, h.position]
    exact (Snapshot.classify_congr (congrArg Motor.position (hm .a)) (congrArg Motor.position (hm .b))).symm
  pending := hp

/-- The plan of a movement fits idle motors. -/
theorem Gate.Still.begin {g : Gate} (hs : g.Still) (hw : g.Wired) (hp : g.pending = none) (d : Direction) :
    (g.begin d).InMotion ((g.begin d).initialDrive d) where
  wired := fun leaf => by rw [begin_motor, begin_levels]; exact hw leaf
  phase := fun leaf => by
    rw [phase_initialDrive, begin_motor, hs leaf]
    unfold plan
    split <;> rfl
  direction := rfl
  pending := hp

theorem Gate.InMotion.start {g : Gate} {dr : Drive} (h : g.InMotion dr) {leaf : Leaf} {at' t : Instant}
    (hp : dr.phase leaf = .waiting at') :
    (g.startLeaf leaf dr.direction).InMotion (dr.setPhase leaf (.running t)).setMoved := by
  have hs : (g.motor leaf).state = .idle := by
    have := h.phase leaf
    rwa [hp] at this
  refine ⟨h.wired.startLeaf hs _, fun leaf' => ?_, ?_, ?_⟩
  · by_cases hl : leaf' = leaf
    · subst hl
      rw [startLeaf_motor_self, Motor.start_of_idle hs]
      simp [PhaseOk]
    · rw [startLeaf_motor_other g hl, Drive.phase_setMoved, Drive.phase_setPhase_other _ _ hl]
      simpa using h.phase leaf'
  · simpa using h.direction
  · rw [startLeaf_pending]
    exact h.pending

/-- A leaf that waits or is done stays in motion with the other as done. -/
theorem Gate.InMotion.skip {g : Gate} {dr : Drive} (h : g.InMotion dr) {leaf : Leaf} {at' : Instant}
    (hp : dr.phase leaf = .waiting at') : g.InMotion (dr.setPhase leaf .done) := by
  refine ⟨h.wired, fun leaf' => ?_, by simpa using h.direction, h.pending⟩
  by_cases hl : leaf' = leaf
  · subst hl
    have := h.phase leaf'
    rw [hp] at this
    simpa [PhaseOk] using this
  · rw [Drive.phase_setPhase_other _ _ hl]
    simpa using h.phase leaf'

theorem Gate.InMotion.stop {g : Gate} {dr : Drive} (h : g.InMotion dr) (leaf : Leaf) :
    (g.stopLeaf leaf).InMotion (dr.setPhase leaf .done) := by
  refine ⟨h.wired.stopLeaf leaf, fun leaf' => ?_, ?_, ?_⟩
  · by_cases hl : leaf' = leaf
    · subst hl
      rw [stopLeaf_motor_self, Drive.phase_setPhase_self]
      exact Motor.stop_state _ _
    · rw [stopLeaf_motor_other g hl, Drive.phase_setPhase_other _ _ hl]
      simpa using h.phase leaf'
  · simpa using h.direction
  · simpa using h.pending

theorem Gate.InMotion.afterLeaf {g : Gate} {dr : Drive} (h : g.InMotion dr) (now : Instant) (leaf : Leaf) :
    Shape g (.afterLeaf dr now leaf) :=
  Point.afterLeaf_rule h (fun _ => ⟨h, .none⟩) (fun _ _ => h) leaf

theorem Gate.InMotion.finish {g : Gate} {dr : Drive} (h : g.InMotion dr) : (g.endDrive dr).Wired ∧ (g.endDrive dr).Still := by
  refine ⟨fun leaf => ?_, fun leaf => ?_⟩
  · rw [endDrive_motor, endDrive_levels]
    exact (h.wired.stopLeaf .a).stopLeaf .b leaf
  · rw [endDrive_motor]
    exact stopBoth_still g leaf

/-- A gate that stands still is at rest once it has settled. -/
theorem Gate.Still.settle {g : Gate} (hw : g.Wired) (hs : g.Still) {result : Option GateCommand} (hr : HandedBack result) :
    Shape (g.endStep result).gate (.await (g.endStep result).await) :=
  ⟨⟨fun leaf => by rw [endStep_motor]; exact hw leaf, fun leaf => by rw [endStep_motor]; exact hs leaf, rfl, rfl, hr⟩,
    rfl, rfl⟩

/-- Every block keeps the shape. -/
theorem shape_step : Preserved Shape := by
  intro g p g' p' hs h
  cases hs with
  | takePending hp => exact ⟨h.1.congr (by simp) rfl rfl rfl .none, rfl⟩
  | @takeCommand w c hw hc =>
    cases w with
    | settled s => exact ⟨h.1.congr (by simp) rfl rfl rfl h.1.pending, hw⟩
    | idle => exact ⟨h.1.congr (by simp) rfl rfl rfl h.1.pending, h.2⟩
    | moving dr dl y => exact hw.elim
  | @takeReset w hw hc hr =>
    cases w with
    | settled s =>
      exact ⟨fun leaf => by rw [Gate.takeWindLockReset_motor]; exact h.1.wired leaf,
        fun leaf => by rw [Gate.takeWindLockReset_motor]; exact h.1.still leaf, .none⟩
    | idle =>
      exact ⟨fun leaf => by rw [Gate.takeWindLockReset_motor]; exact h.1.wired leaf,
        fun leaf => by rw [Gate.takeWindLockReset_motor]; exact h.1.still leaf, .none⟩
    | moving dr dl y => exact hw.elim
  | @rest w hw hc hr =>
    cases w with
    | settled s => exact ⟨h.1, hw⟩
    | idle => exact h
    | moving dr dl y => exact hw.elim
  | refuse hc hb => exact ⟨h.1.wired, h.1.still, .none⟩
  | begin hc hb => exact h.1.still.begin h.1.wired h.2 _
  | stop hc =>
    rw [h.1.still.stopBoth]
    exact ⟨h.1.wired, h.1.still, .none⟩
  | block hb => exact ⟨h, .none⟩
  | look hb => exact h.congr (by simp) rfl rfl rfl
  | notDue hp => exact h
  | start hp hn hr => exact Gate.InMotion.start h hp
  | skip hp hn hr => exact Gate.InMotion.skip h hp
  | keep hp => exact h.afterLeaf _ _
  | complete hp hn => exact (h.stop _).afterLeaf _ _
  | readClock => exact h.congr (by simp) rfl rfl rfl
  | timer hd => exact h
  | sameCommand hc => exact h.congr (by simp) rfl rfl rfl
  | interrupt hc hne => exact ⟨h.congr (by simp) rfl rfl rfl, handedBack_ok⟩
  | barrier hc hb => exact h.congr (by simp) rfl rfl rfl
  | announce hc hb hr => exact h.congr (by simp) rfl rfl rfl
  | suspend hc hb hr => exact h
  | finish => exact ⟨h.1.finish.1, h.1.finish.2, h.2⟩
  | settle => exact Gate.Still.settle h.1 h.2.1 h.2.2

/-! ## Calls, sleeps and boot -/

/-- A call changes signals and safety inputs only: not what the gate publishes. -/
theorem Call.apply_published (call : Call) (c : Controls) :
    (call.apply c).currentDirection = c.currentDirection ∧ (call.apply c).lastDirection = c.lastDirection ∧
      (call.apply c).position = c.position := by
  have send (command : GateCommand) :
      (c.sendUnlessLocked command).currentDirection = c.currentDirection ∧
        (c.sendUnlessLocked command).lastDirection = c.lastDirection ∧
        (c.sendUnlessLocked command).position = c.position := by
    obtain ⟨-, h⟩ | ⟨-, h⟩ := c.sendUnlessLocked_cases command <;> rw [h] <;> exact ⟨rfl, rfl, rfl⟩
  cases call with
  | «open» => exact send .open
  | close => exact send .close
  | stop => exact send .stop
  | impulse => exact send .impulse
  | barrier1Set active =>
    simp only [apply]
    obtain ⟨-, h⟩ | ⟨-, -, h⟩ := c.barrier1Set_cases active <;> rw [h] <;> exact ⟨rfl, rfl, rfl⟩
  | _ => exact ⟨rfl, rfl, rfl⟩

/-- What happens while the task sleeps keeps the shape, if it leaves motors, levels, the published state and the pending
command. -/
theorem Shape.await_congr {g g' : Gate} {w : Await} (h : Shape g (.await w)) (hm : ∀ leaf, g'.motor leaf = g.motor leaf)
    (hl : g'.board.levels = g.board.levels) (hd : g'.controls.currentDirection = g.controls.currentDirection)
    (hpos : g'.controls.position = g.controls.position) (hp : g'.pending = g.pending) : Shape g' (.await w) := by
  have ha : g'.a = g.a := hm .a
  have hb : g'.b = g.b := hm .b
  cases w with
  | settled s => exact ⟨h.1.congr hm hl hd hpos (hp ▸ h.1.pending), by rw [ha]; exact h.2.1, by rw [hb]; exact h.2.2⟩
  | idle => exact ⟨h.1.congr hm hl hd hpos (hp ▸ h.1.pending), hp.trans h.2⟩
  | moving dr dl y => exact Gate.InMotion.congr h hm hl hd hp

theorem shape_call (t : Task) (c : Call) (h : t.Holds Shape) : (t.call c).Holds Shape := by
  obtain ⟨hd, _, hpos⟩ := c.apply_published t.gate.controls
  exact Shape.await_congr h (by simp [Task.call]) rfl hd hpos rfl

theorem shape_wait (t : Task) (d : Duration) (lag : Nat → Duration) (h : t.Holds Shape) : (t.wait d lag).Holds Shape :=
  Shape.await_congr h (by simp [Task.wait]) rfl rfl rfl rfl

theorem shape_boot (early : List Call) (a b : MotorSettings) (locked : Bool) :
    (boot early a b locked).Holds Shape := by
  refine Gate.Still.settle (fun leaf d => ?_) (fun leaf => ?_) ?_
  · cases leaf <;> cases d <;> rfl
  · cases leaf <;> rfl
  · intro c hc
    cases locked <;> cases hc
    exact ⟨.opening, rfl⟩

/-- Every reachable state has the shape. -/
theorem shape_after (early : List Call) (a b : MotorSettings) (locked : Bool) (events : List Event) :
    (after early a b locked events).Holds Shape :=
  shape_step.after shape_call shape_wait (shape_boot early a b locked) events

end GateLink
