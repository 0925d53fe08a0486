import GateLink.Lemmas.Timing
import GateLink.MachineMotor
import GateLink.Config

/-!
# The end is reached when it is due

Two floor divisions meet here: `run_time` turns the distance that remains into a time, `settle` a time into a distance. A run of whole
milliseconds brings the estimate to the end exactly if it covers the remaining distance, and a run of at least `run_time` does, since one
millisecond of overrun makes up for what both divisions drop. None of the arithmetic overflows its machine integers.
-/

namespace GateLink

namespace Motor

variable {leaf : Leaf}

/-- A run is credited with the rest of the way exactly if it covers it. -/
theorem remaining_le_travelled_iff (m : Motor leaf) {d : Direction} (hfull : 1 ≤ asMillis (m.fullDuration d)) (elapsed : Duration) :
    m.remaining d ≤ m.travelled d elapsed ↔ m.remaining d * asMillis (m.fullDuration d) ≤ asMillis elapsed * 255 := by
  have hle := m.remaining_le d
  unfold travelled
  rw [Nat.max_eq_left hfull, Nat.le_min, Nat.le_div_iff_mul_le hfull]
  exact ⟨fun h => h.1, fun h => ⟨h, hle⟩⟩

/-- A leaf that is moved is at the end of its direction exactly if the distance covers the rest of the way. -/
theorem moveBy_eq_endPosition_iff (m : Motor leaf) (d : Direction) (n : Nat) :
    m.moveBy d n = d.endPosition ↔ m.remaining d ≤ n := by
  have hmoved : ({ m with position := m.moveBy d n } : Motor leaf).remaining d = m.remaining d - n := m.remaining_of_moveBy rfl
  rw [← Nat.sub_eq_zero_iff_le, ← hmoved, remaining_eq_zero_iff]

/-- What was started and is stopped later has run in between. -/
theorem stop_of_start (m : Motor leaf) (d : Direction) (bd later : Board) :
    ((m.start d bd).1.stop later).1.position =
      (m.start d bd).1.moveBy d
        ((m.start d bd).1.travelled d (((m.start d bd).1.stop later).2.now - (m.start d bd).2.now)) := by
  have hs : (m.start d bd).1.state = .running d (m.start d bd).2.now := by cases d <;> rfl
  rw [stop_of_running hs]

/-- Time does not run backwards while a motor is stopped. -/
theorem now_le_stop (m : Motor leaf) (bd : Board) : bd.now ≤ (m.stop bd).2.now := by
  cases hs : m.state with
  | idle => exact Nat.le_of_eq (by rw [stop_of_idle hs])
  | running d t =>
    rw [stop_of_running hs]
    exact Nat.le_trans bd.clock.now_le_tick (Nat.le_trans bd.clock.tick.now_le_tick bd.clock.tick.tick.now_le_tick)

/-! ## Machine integers -/

theorem remainingChecked_eq (m : Motor leaf) (d : Direction) : m.remainingChecked d = some (m.remaining d) := by
  have hlt := m.position.isLt
  cases d with
  | opening => exact Checked.sub_of_le (by unfold u8Max; omega)
  | closing => rfl

/-- 255 times the milliseconds of a time are fewer than its ticks. -/
theorem asMillis_mul_le (t : Duration) : asMillis t * 255 ≤ t :=
  Nat.le_trans (Nat.mul_le_mul_left _ (by decide)) (Nat.div_mul_le_self t ticksPerMilli)

/-- No operation of `run_time` overflows, if the full run and the overrun are within a `u64` together. -/
theorem runTimeChecked_eq (m : Motor leaf) {d : Direction} (h : m.fullDuration d + m.endStopOverrun ≤ u64Max) :
    m.runTimeChecked d = some (m.runTime d) := by
  have hscaled : asMillis (m.fullDuration d) * m.remaining d ≤ asMillis (m.fullDuration d) * 255 :=
    Nat.mul_le_mul_left _ (m.remaining_le d)
  have hdiv : asMillis (m.fullDuration d) * m.remaining d / 255 ≤ asMillis (m.fullDuration d) :=
    Nat.div_le_of_le_mul (by rwa [Nat.mul_comm 255])
  have hticks : asMillis (m.fullDuration d) * m.remaining d / 255 * ticksPerMilli ≤ m.fullDuration d :=
    Nat.le_trans (Nat.mul_le_mul_right _ hdiv) (Nat.div_mul_le_self _ _)
  have hfull : m.fullDuration d ≤ u64Max := Nat.le_trans (Nat.le_add_right _ _) h
  have hproduct : asMillis (m.fullDuration d) * m.remaining d ≤ u64Max :=
    Nat.le_trans hscaled (Nat.le_trans (asMillis_mul_le _) hfull)
  have htime : asMillis (m.fullDuration d) * m.remaining d / 255 * ticksPerMilli ≤ u64Max := Nat.le_trans hticks hfull
  have htotal : asMillis (m.fullDuration d) * m.remaining d / 255 * ticksPerMilli + m.endStopOverrun ≤ u64Max :=
    Nat.le_trans (Nat.add_le_add_right hticks _) h
  unfold runTimeChecked runTime
  simp only [remainingChecked_eq, Checked.mul_of_le hproduct, Checked.mul_of_le htime, Checked.add_of_le htotal, bind,
    Option.bind_some]
  by_cases hr : m.remaining d = 0
  · rw [if_pos hr, if_pos hr]
  · rw [if_neg hr, if_neg hr]
    rfl

/-- No operation of `settle` overflows, if the clock is within a `u64` and does not run backwards; the cast cuts nothing off. -/
theorem settledChecked_eq (m : Motor leaf) (d : Direction) {start now : Instant} (hle : start ≤ now) (h : now ≤ u64Max) :
    m.settledChecked d start now = some (m.moveBy d (m.travelled d (now - start))) := by
  have hproduct : asMillis (now - start) * 255 ≤ u64Max :=
    Nat.le_trans (asMillis_mul_le _) (Nat.le_trans (Nat.sub_le now start) h)
  have hcast : min (asMillis (now - start) * 255 / max (asMillis (m.fullDuration d)) 1) 255 ≤ u8Max := Nat.min_le_right _ _
  unfold settledChecked travelled
  simp only [Checked.sub_of_le hle, Checked.mul_of_le hproduct, Checked.fit_of_le hcast, bind, Option.bind_some]

end Motor

/-- The end is reached exactly when it is due. For every motor that is started in a direction whose full run takes at least a millisecond
and stopped at any later time: the position is the end of the direction exactly if the whole milliseconds of the run, times 255, are at
least the remaining distance times the full duration; with an overrun of at least a millisecond that is so for every run of at least
`run_time`, and the leaf then has nothing left to run. No operation in this overflows its type, as long as the full run and the overrun
together, and the clock, are within a `u64`. -/
theorem end_reached_when_due {leaf : Leaf} (m : Motor leaf) (d : Direction) (bd later : Board)
    (hfull : 1 ≤ asMillis (m.fullDuration d)) (hlater : (m.start d bd).2.now ≤ later.now) :
    let started := m.start d bd
    let stopped := started.1.stop later
    let elapsed := stopped.2.now - started.2.now
    (stopped.1.position = d.endPosition ↔ started.1.remaining d * asMillis (m.fullDuration d) ≤ asMillis elapsed * 255) ∧
    (ticksPerMilli ≤ m.endStopOverrun → ∀ r, started.1.runTime d = some r → r ≤ elapsed →
      stopped.1.position = d.endPosition ∧ stopped.1.runTime d = none) ∧
    (m.fullDuration d + m.endStopOverrun ≤ u64Max → started.1.runTimeChecked d = some (started.1.runTime d)) ∧
    (stopped.2.now ≤ u64Max → started.1.settledChecked d started.2.now stopped.2.now = some stopped.1.position) := by
  intro started stopped elapsed
  have hposition : stopped.1.position = started.1.moveBy d (started.1.travelled d elapsed) := m.stop_of_start d bd later
  have hduration : started.1.fullDuration d = m.fullDuration d := (m.start_settings d bd).fullDuration d
  have hoverrun : started.1.endStopOverrun = m.endStopOverrun := (m.start_settings d bd).endStopOverrun
  have hend : stopped.1.position = d.endPosition ↔ started.1.remaining d ≤ started.1.travelled d elapsed := by
    rw [hposition, Motor.moveBy_eq_endPosition_iff]
  refine ⟨?_, fun ho r hr he => ?_, fun hsum => ?_, fun hclock => ?_⟩
  · rw [hend, Motor.remaining_le_travelled_iff _ (by rw [hduration]; exact hfull), hduration]
  · have hstop : stopped.1.position = d.endPosition :=
      hend.mpr (started.1.remaining_le_travelled (by rw [hoverrun]; exact ho) hr he)
    exact ⟨hstop, (stopped.1.runTime_eq_none_iff d).mpr (Motor.remaining_of_position hstop)⟩
  · exact started.1.runTimeChecked_eq (by rw [hduration, hoverrun]; exact hsum)
  · have hstart : started.2.now ≤ stopped.2.now := Nat.le_trans hlater (Motor.now_le_stop started.1 later)
    rw [hposition]
    exact started.1.settledChecked_eq d hstart hclock

/-- Leaf A of the installation, at 100, is opened for exactly its run time: it is open. -/
theorem end_reached_from_hundred :
    let m := (Motor.new .a (settingsOf leafA 100) (Board.new Controls.new)).1
    let started := m.start .opening (Board.new Controls.new)
    started.1.runTime .opening = some (fromMillis 10117) ∧
      (started.1.stop (started.2.wait (fromMillis 10117) steady)).1.position = Direction.opening.endPosition :=
  have h := end_reached_when_due (Motor.new .a (settingsOf leafA 100) (Board.new Controls.new)).1 .opening (Board.new Controls.new)
    (((Motor.new .a (settingsOf leafA 100) (Board.new Controls.new)).1.start .opening (Board.new Controls.new)).2.wait
      (fromMillis 10117) steady) (by decide +kernel) (by decide +kernel)
  ⟨by decide +kernel, (h.2.1 (by decide +kernel) _ rfl (by decide +kernel)).1⟩

end GateLink
