import GateLink.Lemmas.Shape
import GateLink.Lib.Scale

/-!
# Times and positions, with one reading of the clock per poll

The results about times and positions take a poll as instantaneous: every reading of the clock in it is the same (`Gate.Steady`).
Then what is planned is what happens, up to polls that come late. The rounding argument is here: a leaf that has run its time is
credited with at least the distance it had to its end, as long as the overrun is at least a millisecond (`remaining_le_travelled`),
so a leaf that is done is at its end (`timed_step`).
-/

namespace GateLink

open Machine

/-- The clock stands still for the rest of the poll. -/
def Gate.Steady (g : Gate) : Prop := g.board.clock.lag = steady

/-- The event is a call, or a poll with one reading of the clock. -/
def Event.Steady : Event → Prop
  | .call _ => True
  | .poll _ lag => lag = steady

/-! ## The estimate -/

/-- The position at the end of a direction. -/
def Direction.endPosition : Direction → U8
  | .opening => 255
  | .closing => 0

namespace Motor

variable {leaf : Leaf} (m : Motor leaf)

/-- A run that is not shorter is credited with a distance that is not shorter. -/
theorem travelled_mono (d : Direction) {s t : Duration} (h : s ≤ t) : m.travelled d s ≤ m.travelled d t := by
  have hms : asMillis s ≤ asMillis t := Nat.div_le_div_right h
  exact Nat.le_min.mpr ⟨Nat.le_trans (Nat.min_le_left _ _) (Scale.unscale_mono hms), Nat.min_le_right _ _⟩

theorem remaining_le (d : Direction) : m.remaining d ≤ 255 := by
  have h := m.position.isLt
  cases d <;> simp only [remaining] <;> omega

theorem runTime_eq_none_iff (d : Direction) : m.runTime d = none ↔ m.remaining d = 0 := by
  unfold runTime
  split <;> simp_all

/-- A run is no shorter than the overrun. -/
theorem overrun_le {m : Motor leaf} {d : Direction} {r : Duration} (hr : m.runTime d = some r) : m.endStopOverrun ≤ r := by
  unfold runTime at hr
  split at hr
  · cases hr
  · obtain rfl := Option.some.inj hr
    exact Nat.le_add_left _ _

/-- A leaf that has run its time is credited with at least the distance it had to its end. -/
theorem remaining_le_travelled (ho : ticksPerMilli ≤ m.endStopOverrun) {d : Direction} {r elapsed : Duration}
    (hr : m.runTime d = some r) (he : r ≤ elapsed) : m.remaining d ≤ m.travelled d elapsed := by
  have hle := m.remaining_le d
  have hrun : fromMillis (asMillis (m.fullDuration d) * m.remaining d / 255) + m.endStopOverrun = r := by
    unfold runTime at hr
    split at hr
    · cases hr
    · exact Option.some.inj hr
  have hms : asMillis (m.fullDuration d) * m.remaining d / 255 + 1 ≤ asMillis elapsed := by
    unfold asMillis
    rw [Nat.le_div_iff_mul_le (by decide), Nat.add_mul, Nat.one_mul]
    exact Nat.le_trans (Nat.add_le_add_left ho _) (Nat.le_trans (Nat.le_of_eq hrun) he)
  exact Nat.le_min.mpr ⟨Scale.le_unscale (by decide) hle hms, hle⟩

/-- A leaf that has nothing left to go is at the end of its direction. -/
theorem position_of_remaining {m : Motor leaf} {d : Direction} (h : m.remaining d = 0) : m.position = d.endPosition := by
  have hlt := m.position.isLt
  refine Fin.ext ?_
  cases d with
  | opening =>
    simp only [remaining] at h
    show m.position.val = 255
    omega
  | closing => exact h

theorem remaining_of_position {m : Motor leaf} {d : Direction} (h : m.position = d.endPosition) : m.remaining d = 0 := by
  cases d <;> simp only [remaining, h] <;> rfl

theorem remaining_eq_zero_iff {m : Motor leaf} {d : Direction} : m.remaining d = 0 ↔ m.position = d.endPosition :=
  ⟨position_of_remaining, remaining_of_position⟩

/-- A leaf that is moved is closer to its end by the distance, but not beyond it. -/
theorem remaining_of_moveBy {d : Direction} {n : Nat} {m' : Motor leaf} (hm : m'.position = m.moveBy d n) :
    m'.remaining d = m.remaining d - n := by
  have hlt := m.position.isLt
  cases d with
  | opening =>
    simp only [remaining, moveBy, saturatingAdd] at hm ⊢
    rw [hm]
    simp only
    omega
  | closing =>
    simp only [remaining, moveBy, saturatingSub] at hm ⊢
    rw [hm]

/-! ## Starts and stops while the clock stands still -/

theorem stop_clock {bd : Board} (h : bd.clock.lag = steady) : (m.stop bd).2.clock = bd.clock := by
  cases hs : m.state with
  | idle => rw [stop_of_idle hs]
  | running d t =>
    rw [stop_of_running hs]
    simp [released, Clock.tick_of_steady h]

theorem start_clock {bd : Board} (h : bd.clock.lag = steady) (d : Direction) : (m.start d bd).2.clock = bd.clock := by
  have hs : (m.settle bd).2.clock = bd.clock := m.stop_clock h
  cases d <;> simp [start, Board.setLow, Board.setHigh, hs, Clock.tick_of_steady h]

/-- Where a leaf is in its movement, by the times of its phase: a leaf that waits is not at its end, a leaf that runs has been
given the time it needs, and a leaf that is done is at its end. -/
def Timed (d : Direction) (now : Instant) : Phase → Prop
  | .waiting _ => m.remaining d ≠ 0
  | .running stopAt => ∃ since r, m.state = .running d since ∧ since ≤ now ∧ m.runTime d = some r ∧ stopAt = since + r
  | .done => m.remaining d = 0

end Motor

namespace Gate

/-- A clock that stands still reads the same. -/
theorem tick_of_steady {g : Gate} (h : g.Steady) : g.tick = g := by
  obtain ⟨⟨clock, controls, levels, trace⟩, a, b, pending⟩ := g
  simp only [Gate.tick, Board.tick, Clock.tick_of_steady h]

theorem Steady.of_clock {g g' : Gate} (h : g.Steady) (hc : g'.board.clock = g.board.clock) : g'.Steady := by
  unfold Steady
  rw [hc]
  exact h

theorem stopLeaf_clock {g : Gate} (h : g.Steady) (leaf : Leaf) : (g.stopLeaf leaf).board.clock = g.board.clock :=
  (g.motor leaf).stop_clock h

theorem stopLeaf_now {g : Gate} (h : g.Steady) (leaf : Leaf) : (g.stopLeaf leaf).now = g.now :=
  congrArg Clock.now (stopLeaf_clock h leaf)

theorem Steady.stopLeaf {g : Gate} (h : g.Steady) (leaf : Leaf) : (g.stopLeaf leaf).Steady := h.of_clock (stopLeaf_clock h leaf)

theorem startLeaf_now {g : Gate} (h : g.Steady) (leaf : Leaf) (d : Direction) : (g.startLeaf leaf d).now = g.now :=
  congrArg Clock.now ((g.motor leaf).start_clock h d)

/-- The motor of a leaf that is started: it runs since now. -/
theorem startLeaf_motor_of_steady {g : Gate} (h : g.Steady) {leaf : Leaf} (hs : (g.motor leaf).state = .idle) (d : Direction) :
    (g.startLeaf leaf d).motor leaf = { g.motor leaf with state := .running d g.now } := by
  have hn : ((g.motor leaf).started d g.board).now = g.now := by
    simp [Motor.started, Board.now, Gate.now, Clock.tick_of_steady h]
  rw [startLeaf_motor_self, Motor.start_of_idle hs, hn]

/-- The motor of a leaf that is stopped while it runs: it is credited with the distance of its run. -/
theorem stopLeaf_motor_of_steady {g : Gate} (h : g.Steady) {leaf : Leaf} {d : Direction} {since : Instant}
    (hs : (g.motor leaf).state = .running d since) :
    (g.stopLeaf leaf).motor leaf =
      { g.motor leaf with
        state := .idle
        stoppedAt := some g.now
        position := (g.motor leaf).moveBy d ((g.motor leaf).travelled d (g.now - since)) } := by
  have hn : ((g.motor leaf).released g.board).now = g.now := by
    simp [Motor.released, Board.now, Gate.now, Clock.tick_of_steady h]
  rw [stopLeaf_motor_self, Motor.stop_of_running hs, hn]

/-- A leaf that is stopped once it has run its time is at its end. -/
theorem stopLeaf_remaining_of_run {g : Gate} (h : g.Steady) {leaf : Leaf} (ho : ticksPerMilli ≤ (g.motor leaf).endStopOverrun)
    {d : Direction} {since : Instant} (hs : (g.motor leaf).state = .running d since) {r : Duration}
    (hr : (g.motor leaf).runTime d = some r) (hn : since + r ≤ g.now) : ((g.stopLeaf leaf).motor leaf).remaining d = 0 := by
  have htravelled := (g.motor leaf).remaining_le_travelled ho hr (Nat.le_sub_of_add_le' hn)
  have hleft : ((g.stopLeaf leaf).motor leaf).remaining d =
      (g.motor leaf).remaining d - (g.motor leaf).travelled d (g.now - since) :=
    Motor.remaining_of_moveBy _ (by rw [stopLeaf_motor_of_steady h hs])
  exact hleft.trans (Nat.sub_eq_zero_of_le htravelled)

/-- Every leaf is where the times of its phase say. -/
def LeavesTimed (g : Gate) (dr : Drive) : Prop := ∀ leaf, (g.motor leaf).Timed dr.direction g.now (dr.phase leaf)

theorem LeavesTimed.congr {g g' : Gate} {dr : Drive} (h : g.LeavesTimed dr) (hm : ∀ leaf, g'.motor leaf = g.motor leaf)
    (hn : g.now ≤ g'.now) : g'.LeavesTimed dr := by
  intro leaf
  have hl := h leaf
  rw [hm]
  unfold Motor.Timed at hl ⊢
  split
  · rename_i hp
    rw [hp] at hl
    exact hl
  · rename_i hp
    rw [hp] at hl
    obtain ⟨since, r, hs, hle, hr, he⟩ := hl
    exact ⟨since, r, hs, Nat.le_trans hle hn, hr, he⟩
  · rename_i hp
    rw [hp] at hl
    exact hl

/-- A leaf's turn changes that leaf only. -/
theorem LeavesTimed.setPhase {g g' : Gate} {dr : Drive} (h : g.LeavesTimed dr) (hn : g'.now = g.now) {leaf : Leaf} {p : Phase}
    (ho : ∀ leaf', leaf' ≠ leaf → g'.motor leaf' = g.motor leaf') (hl : (g'.motor leaf).Timed dr.direction g.now p) :
    g'.LeavesTimed (dr.setPhase leaf p) := by
  intro leaf'
  rw [hn, Drive.direction_setPhase]
  by_cases he : leaf' = leaf
  · subst he
    rw [Drive.phase_setPhase_self]
    exact hl
  · rw [Drive.phase_setPhase_other _ _ he, ho leaf' he]
    exact h leaf'

end Gate

/-- The clock stands still, no overrun is too short for the rounding, and in a movement every leaf is where the times of its phase
say. A pass is at the one time the clock shows. -/
structure Timed (g : Gate) (p : Point) : Prop where
  steady : g.Steady
  overrun : ∀ leaf, ticksPerMilli ≤ (g.motor leaf).endStopOverrun
  leaves :
    match p with
    | .await (.moving dr _ _) | .top dr | .over dr _ => g.LeavesTimed dr
    | .starting dr _ now | .stopping dr _ now => g.LeavesTimed dr ∧ now = g.now
    | _ => True

/-- No block moves a clock that stands still. -/
theorem clock_step {g g' : Gate} {p p' : Point} (hs : Step g p g' p') (h : g.Steady) : g'.board.clock = g.board.clock := by
  have htick : g.board.clock.tick = g.board.clock := Clock.tick_of_steady h
  have hboth : ((g.stopLeaf .a).stopLeaf .b).board.clock = g.board.clock :=
    (Gate.stopLeaf_clock (h.stopLeaf .a) .b).trans (Gate.stopLeaf_clock h .a)
  cases hs with
  | begin | look | readClock => exact htick
  | stop => exact hboth
  | start => exact Motor.start_clock _ h _
  | complete => exact Gate.stopLeaf_clock h _
  | finish => exact (Gate.endDrive_clock _ _).trans hboth
  | _ => rfl

theorem now_step {g g' : Gate} {p p' : Point} (hs : Step g p g' p') (h : g.Steady) : g'.now = g.now :=
  congrArg Clock.now (clock_step hs h)

theorem steady_step {g g' : Gate} {p p' : Point} (hs : Step g p g' p') (h : g.Steady) : g'.Steady :=
  h.of_clock (clock_step hs h)

/-- Two motors that are set in the same way. -/
structure Motor.SameSettings {leaf : Leaf} (m m' : Motor leaf) : Prop where
  timing : m'.timing = m.timing
  endStopOverrun : m'.endStopOverrun = m.endStopOverrun
  reversePause : m'.reversePause = m.reversePause

theorem Motor.SameSettings.refl {leaf : Leaf} (m : Motor leaf) : m.SameSettings m := ⟨rfl, rfl, rfl⟩

theorem Motor.SameSettings.trans {leaf : Leaf} {m m' m'' : Motor leaf} (h : m.SameSettings m') (h' : m'.SameSettings m'') :
    m.SameSettings m'' :=
  ⟨h'.timing.trans h.timing, h'.endStopOverrun.trans h.endStopOverrun, h'.reversePause.trans h.reversePause⟩

theorem Motor.SameSettings.fullDuration {leaf : Leaf} {m m' : Motor leaf} (h : m.SameSettings m') (d : Direction) :
    m'.fullDuration d = m.fullDuration d := by
  unfold Motor.fullDuration
  rw [h.timing]

theorem Motor.SameSettings.initialDelay {leaf : Leaf} {m m' : Motor leaf} (h : m.SameSettings m') (d : Direction) :
    m'.initialDelay d = m.initialDelay d := by
  unfold Motor.initialDelay
  rw [h.timing]

theorem Motor.stop_settings {leaf : Leaf} (m : Motor leaf) (bd : Board) : m.SameSettings (m.stop bd).1 :=
  ⟨m.stop_timing bd, m.stop_endStopOverrun bd, m.stop_reversePause bd⟩

theorem Motor.start_settings {leaf : Leaf} (m : Motor leaf) (d : Direction) (bd : Board) : m.SameSettings (m.start d bd).1 :=
  ⟨m.stop_timing bd, m.stop_endStopOverrun bd, m.stop_reversePause bd⟩

theorem Gate.stopLeaf_settings (g : Gate) (leaf leaf' : Leaf) :
    (g.motor leaf').SameSettings ((g.stopLeaf leaf).motor leaf') := by
  by_cases hl : leaf' = leaf
  · subst hl
    rw [stopLeaf_motor_self]
    exact Motor.stop_settings _ _
  · rw [stopLeaf_motor_other g hl]
    exact .refl _

theorem Gate.startLeaf_settings (g : Gate) (leaf leaf' : Leaf) (d : Direction) :
    (g.motor leaf').SameSettings ((g.startLeaf leaf d).motor leaf') := by
  by_cases hl : leaf' = leaf
  · subst hl
    rw [startLeaf_motor_self]
    exact Motor.start_settings _ d _
  · rw [startLeaf_motor_other g hl]
    exact .refl _

/-- No block changes how a motor is set. -/
theorem settings_step {g g' : Gate} {p p' : Point} (hs : Step g p g' p') (leaf : Leaf) :
    (g.motor leaf).SameSettings (g'.motor leaf) := by
  have hboth : (g.motor leaf).SameSettings (((g.stopLeaf .a).stopLeaf .b).motor leaf) :=
    (g.stopLeaf_settings .a leaf).trans ((g.stopLeaf .a).stopLeaf_settings .b leaf)
  cases hs with
  | takePending | takeCommand | takeReset | begin | look | readClock | sameCommand | interrupt | barrier | announce | settle =>
    simp only [Gate.pending_motor, Gate.takeCommand_motor, Gate.takeWindLockReset_motor, Gate.begin_motor, Gate.tick_motor,
      Gate.takeBarrierChanged_motor, Gate.record_motor, Gate.endStep_motor]
    exact .refl _
  | stop => exact hboth
  | start => exact g.startLeaf_settings _ leaf _
  | complete => exact g.stopLeaf_settings _ leaf
  | finish =>
    rw [Gate.endDrive_motor]
    exact hboth
  | _ => exact .refl _

/-- The plan of a movement: a leaf that is at its end is done, any other waits. -/
theorem begin_leavesTimed (g : Gate) (d : Direction) : (g.begin d).LeavesTimed ((g.begin d).initialDrive d) := by
  intro leaf
  rw [Gate.phase_initialDrive]
  unfold plan
  split
  · rename_i hr
    exact (Motor.runTime_eq_none_iff _ _).mp hr
  · rename_i r hr
    intro h0
    rw [Gate.initialDrive_direction] at h0
    rw [(Motor.runTime_eq_none_iff _ _).mpr h0] at hr
    cases hr

theorem timed_afterLeaf {g : Gate} {dr : Drive} (h : g.LeavesTimed dr) (hs : g.Steady)
    (ho : ∀ leaf, ticksPerMilli ≤ (g.motor leaf).endStopOverrun) {now : Instant} (hn : now = g.now) (leaf : Leaf) :
    Timed g (.afterLeaf dr now leaf) :=
  Point.afterLeaf_rule ⟨hs, ho, h, hn⟩ (fun _ => ⟨hs, ho, h⟩) (fun _ _ => ⟨hs, ho, h⟩) leaf

/-- A leaf that is started now runs since now, for the time it needs. -/
theorem Gate.LeavesTimed.start {g : Gate} {dr : Drive} (h : g.LeavesTimed dr) (hs : g.Steady) {leaf : Leaf}
    (hi : (g.motor leaf).state = .idle) {r : Duration} (hr : (g.motor leaf).runTime dr.direction = some r)
    (hn : (g.startLeaf leaf dr.direction).now = g.now) :
    (g.startLeaf leaf dr.direction).LeavesTimed (dr.setPhase leaf (.running (g.now + r))).setMoved := by
  have hset : (g.startLeaf leaf dr.direction).LeavesTimed (dr.setPhase leaf (.running (g.now + r))) := by
    refine h.setPhase hn (fun leaf' hl => startLeaf_motor_other g hl _) ⟨g.now, r, ?_, Nat.le_refl _, ?_, rfl⟩
    · rw [startLeaf_motor_of_steady hs hi]
    · rw [startLeaf_motor_of_steady hs hi]
      exact hr
  intro leaf'
  simpa using hset leaf'

/-- A leaf that has run its time is at its end. -/
theorem Gate.LeavesTimed.complete {g : Gate} {dr : Drive} (h : g.LeavesTimed dr) (hs : g.Steady)
    (ho : ∀ leaf, ticksPerMilli ≤ (g.motor leaf).endStopOverrun) {leaf : Leaf} {at' : Instant}
    (hp : dr.phase leaf = .running at') (hn : at' ≤ g.now) (hn' : (g.stopLeaf leaf).now = g.now) :
    (g.stopLeaf leaf).LeavesTimed (dr.setPhase leaf .done) := by
  refine h.setPhase hn' (fun leaf' hl => stopLeaf_motor_other g hl) ?_
  have hl := h leaf
  rw [hp] at hl
  obtain ⟨since, r, hstate, hle, hr, he⟩ := hl
  exact stopLeaf_remaining_of_run hs (ho leaf) hstate hr (he ▸ hn)

/-- Every block keeps the times. -/
theorem timed_step : Preserved (fun g p => Shape g p ∧ Timed g p) := by
  intro g p g' p' hs h
  obtain ⟨hshape, hsteady, ho, hl⟩ := h
  have hnow := now_step hs hsteady
  have hsteady' := steady_step hs hsteady
  have ho' (leaf : Leaf) : ticksPerMilli ≤ (g'.motor leaf).endStopOverrun := by
    rw [(settings_step hs leaf).endStopOverrun]
    exact ho leaf
  have hsame {dr : Drive} (h : g.LeavesTimed dr) (hm : ∀ leaf, g'.motor leaf = g.motor leaf) : g'.LeavesTimed dr :=
    h.congr hm (Nat.le_of_eq hnow.symm)
  refine ⟨shape_step hs hshape, ?_⟩
  cases hs with
  | @begin c d hc hb => exact ⟨hsteady', ho', begin_leavesTimed g d⟩
  | look hb => exact ⟨hsteady', ho', hsame hl (by simp), rfl⟩
  | notDue hw => exact ⟨hsteady', ho', hl⟩
  | @start dr leaf now at' r hw hn hr =>
    have hi : (g.motor leaf).state = .idle := (hshape.phase leaf).idle (by rw [hw]; nofun)
    obtain ⟨hl, rfl⟩ := hl
    exact ⟨hsteady', ho', hl.start hsteady hi hr hnow, hnow.symm⟩
  | @skip dr leaf now at' hw hn hr =>
    refine ⟨hsteady', ho', hl.1.setPhase rfl (fun _ _ => rfl) ((Motor.runTime_eq_none_iff _ _).mp hr), hl.2⟩
  | keep hw => exact timed_afterLeaf hl.1 hsteady' ho' hl.2 _
  | @complete dr leaf now at' hw hn =>
    obtain ⟨hl, rfl⟩ := hl
    exact timed_afterLeaf (hl.complete hsteady ho hw hn hnow) hsteady' ho' hnow.symm _
  | readClock => exact ⟨hsteady', ho', hsame hl (by simp)⟩
  | sameCommand hc => exact ⟨hsteady', ho', hsame hl (by simp)⟩
  | interrupt hc hne => exact ⟨hsteady', ho', hsame hl (by simp)⟩
  | barrier hc hb => exact ⟨hsteady', ho', hsame hl (by simp)⟩
  | announce hc hb hr => exact ⟨hsteady', ho', hsame hl (by simp)⟩
  | block hb => exact ⟨hsteady', ho', hl⟩
  | timer hd => exact ⟨hsteady', ho', hl⟩
  | suspend hc hb hr => exact ⟨hsteady', ho', hl⟩
  | _ => exact ⟨hsteady', ho', trivial⟩

theorem timed_call (t : Task) (c : Call) (h : t.Holds Timed) : (t.call c).Holds Timed := by
  refine ⟨h.steady, fun leaf => ?_, ?_⟩
  · rw [Task.call, Gate.modify_motor]
    exact h.overrun leaf
  · have hl := h.leaves
    obtain ⟨g, w⟩ := t
    cases w with
    | moving dr dl y => exact Gate.LeavesTimed.congr hl (by simp [Task.call]) (Nat.le_refl _)
    | _ => trivial

theorem timed_wait (t : Task) (sleep : Duration) {lag : Nat → Duration} (hs : lag = GateLink.steady) (h : t.Holds Timed) :
    (t.wait sleep lag).Holds Timed := by
  refine ⟨hs, fun leaf => ?_, ?_⟩
  · rw [Task.wait, Gate.board_motor]
    exact h.overrun leaf
  · have hl := h.leaves
    obtain ⟨g, w⟩ := t
    cases w with
    | moving dr dl y => exact Gate.LeavesTimed.congr hl (by simp [Task.wait]) (Nat.le_add_right _ _)
    | _ => trivial

theorem timed_boot (early : List Call) {a b : MotorSettings} (locked : Bool) (ha : ticksPerMilli ≤ a.endStopOverrun)
    (hb : ticksPerMilli ≤ b.endStopOverrun) : (boot early a b locked).Holds Timed := by
  refine ⟨rfl, fun leaf => ?_, trivial⟩
  cases leaf with
  | a => exact ha
  | b => exact hb

end GateLink
