import GateLink.Config
import GateLink.Lemmas.Poll
import GateLink.Lemmas.Replay
import GateLink.Lemmas.Schedule

/-!
# No relay overstays its deadline

Whenever the gate is suspended within a movement, every relay that is energized has been so for less than its run time, and the timer
the gate waits on is set for no later than the earliest end of a run and the earliest start of a leaf that waits
(`relays_meet_deadlines`). The phases and the motors agree on the deadlines at every point of the task (`Due`); that the armed timer lies
ahead holds where a poll ends, since a poll that finds it due goes around the loop first (`poll_ahead`).
-/

namespace GateLink

open Machine

/-- The executor polls no later than the timer the gate waits on, and the clock is read once per poll. -/
def Punctual (t : Task) : Event → Prop
  | .call _ => True
  | .poll sleep lag => lag = steady ∧ ∀ dr dl y, t.await = .moving dr dl y → t.gate.now + sleep ≤ dl

namespace DeadlineAux

/-- A leaf that runs is to be stopped when it has run its time. -/
def Runs (g : Gate) (dr : Drive) : Prop :=
  ∀ leaf stopAt, dr.phase leaf = .running stopAt →
    ∃ since r, (g.motor leaf).state = .running dr.direction since ∧ (g.motor leaf).runTime dr.direction = some r ∧
      stopAt = since + r

/-- The phases of the leaves know when they are to be stopped, and the timer that is armed is the earliest deadline. -/
def Due (g : Gate) : Point → Prop
  | .await (.moving dr dl _) => Runs g dr ∧ dr.nextDeadline = some dl
  | .top dr | .over dr _ => Runs g dr
  | .starting dr _ now | .stopping dr _ now => Runs g dr ∧ now = g.now
  | _ => True

/-- It depends on the motors only. -/
theorem Runs.congr {g g' : Gate} {dr : Drive} (h : Runs g dr) (hm : ∀ leaf, g'.motor leaf = g.motor leaf) : Runs g' dr := by
  intro leaf stopAt hp
  rw [hm]
  exact h leaf stopAt hp

/-- A leaf's turn changes that leaf only. -/
theorem Runs.setPhase {g g' : Gate} {dr : Drive} (h : Runs g dr) {leaf : Leaf} {p : Phase}
    (ho : ∀ leaf', leaf' ≠ leaf → g'.motor leaf' = g.motor leaf')
    (hl : ∀ stopAt, p = .running stopAt → ∃ since r, (g'.motor leaf).state = .running dr.direction since ∧
      (g'.motor leaf).runTime dr.direction = some r ∧ stopAt = since + r) : Runs g' (dr.setPhase leaf p) := by
  intro leaf' stopAt hp
  rw [Drive.direction_setPhase]
  by_cases he : leaf' = leaf
  · subst he
    rw [Drive.phase_setPhase_self] at hp
    exact hl stopAt hp
  · rw [Drive.phase_setPhase_other _ _ he] at hp
    rw [ho leaf' he]
    exact h leaf' stopAt hp

/-- The deadlines stay as they are at the next leaf. -/
theorem due_afterLeaf {g : Gate} {dr : Drive} (h : Runs g dr) {now : Instant} (hn : now = g.now) (leaf : Leaf) :
    Due g (.afterLeaf dr now leaf) :=
  Point.afterLeaf_rule ⟨h, hn⟩ (fun _ => h) (fun _ hd => ⟨h, hd⟩) leaf

/-- Every step keeps them. -/
theorem due_step {g g' : Gate} {p p' : Point} (hs : Step g p g' p') (hshape : Shape g p) (hsteady : g.Steady) (h : Due g p) :
    Due g' p' := by
  have hnow := now_step hs hsteady
  cases hs with
  | @begin c d hc hb =>
    intro leaf stopAt hp
    rw [Gate.phase_initialDrive, plan] at hp
    split at hp <;> cases hp
  | block hb => exact h
  | look hb => exact ⟨Runs.congr h (by simp), rfl⟩
  | notDue hp => exact h
  | @start dr leaf now at' r hp hn hr =>
    have hi : (g.motor leaf).state = .idle := (hshape.phase leaf).idle (by rw [hp]; nofun)
    obtain ⟨h, rfl⟩ := h
    have hset : Runs (g.startLeaf leaf dr.direction) (dr.setPhase leaf (.running (g.now + r))) := by
      refine h.setPhase (fun leaf' hl => Gate.startLeaf_motor_other g hl _) fun stopAt he => ⟨g.now, r, ?_, ?_, ?_⟩
      · rw [Gate.startLeaf_motor_of_steady hsteady hi]
      · rw [Gate.startLeaf_motor_of_steady hsteady hi]
        exact hr
      · exact (Phase.running.inj he).symm
    refine ⟨fun leaf' stopAt hp' => ?_, hnow.symm⟩
    rw [Drive.phase_setMoved] at hp'
    exact hset leaf' stopAt hp'
  | skip hp hn hr => exact ⟨h.1.setPhase (fun _ _ => rfl) nofun, h.2⟩
  | keep hp => exact due_afterLeaf h.1 h.2 _
  | complete hp hn =>
    exact due_afterLeaf (h.1.setPhase (p := .done) (fun _ hl => Gate.stopLeaf_motor_other g hl) nofun) (h.2.trans hnow.symm) _
  | readClock => exact ⟨Runs.congr h.1 (by simp), h.2⟩
  | timer hd => exact h.1
  | sameCommand hc => exact Runs.congr h.1 (by simp)
  | interrupt hc hne => exact Runs.congr h.1 (by simp)
  | barrier hc hb => exact Runs.congr h.1 (by simp)
  | announce hc hb hr => exact Runs.congr h.1 (by simp)
  | suspend hc hb hr => exact h
  | _ => trivial

/-- The deadline that is armed comes no later than the end of a run or the start of a leaf that waits. -/
theorem deadline_le {dr : Drive} {dl : Instant} (h : dr.nextDeadline = some dl) (leaf : Leaf) {t : Instant}
    (hp : dr.phase leaf = .running t ∨ dr.phase leaf = .waiting t) : dl ≤ t := by
  refine (nextDeadline_eq_some h).2 leaf t ?_
  rcases hp with hp | hp <;> rw [hp] <;> rfl

/-! ## The armed timer lies ahead -/

/-- After its turn, a leaf has its deadline ahead. -/
theorem passLeaf_ahead (g : Gate) (dr : Drive) (leaf : Leaf) {now t : Instant}
    (h : ((g.passLeaf dr leaf now).2.phase leaf).deadline = some t) : now < t := by
  have hstop (g' : Gate) (dr' : Drive) (hw : ∀ x, dr'.phase leaf = .waiting x → now < x)
      (ht : ((g'.stopIfDue dr' leaf now).2.phase leaf).deadline = some t) : now < t := by
    unfold Gate.stopIfDue at ht
    split at ht
    · rename_i stopAt hp
      split at ht
      · rw [Drive.phase_setPhase_self] at ht
        cases ht
      · rename_i hn
        rw [hp] at ht
        cases ht
        exact Nat.lt_of_not_le hn
    · rename_i hp
      cases hph : dr'.phase leaf with
      | waiting x =>
        rw [hph] at ht
        cases ht
        exact hw _ hph
      | running x => exact absurd hph (hp x)
      | done =>
        rw [hph] at ht
        cases ht
  refine hstop _ _ (fun startAt hx => ?_) h
  unfold Gate.startIfDue at hx
  split at hx
  · rename_i startAt hp
    split at hx
    · split at hx
      · rw [Drive.phase_setMoved, Drive.phase_setPhase_self] at hx
        cases hx
      · rw [Drive.phase_setPhase_self] at hx
        cases hx
    · rename_i hn
      rw [hp] at hx
      cases hx
      exact Nat.lt_of_not_le hn
  · rename_i hp
    exact absurd hx (hp _)

/-- After a pass, every deadline is ahead. -/
theorem pass_ahead (g : Gate) (dr : Drive) {dl : Instant} (h : (g.pass dr).2.nextDeadline = some dl) : g.tick.now < dl := by
  have hba : Leaf.a ≠ Leaf.b := nofun
  obtain ⟨⟨leaf, hleaf⟩, -⟩ := nextDeadline_eq_some h
  cases leaf with
  | a =>
    rw [Gate.pass, (passLeaf_frame _ _ hba _).1] at hleaf
    exact passLeaf_ahead _ _ _ hleaf
  | b => exact passLeaf_ahead _ _ _ hleaf

/-- The clock stands still and shows a time. -/
def Shows (n : Instant) (g : Gate) (_ : Point) : Prop := g.Steady ∧ g.now = n

/-- No step moves such a clock. -/
theorem shows_step (n : Instant) : Preserved (Shows n) := fun _ _ _ _ hs h =>
  ⟨steady_step hs h.1, (now_step hs h.1).trans h.2⟩

/-- The task has its timer ahead, if it waits on one. -/
def TimerAhead (t : Task) : Prop := t.gate.Steady ∧ ∀ dr dl y, t.await = .moving dr dl y → t.gate.now < dl

/-- The task has its timer ahead and polled it, if it waits on one. -/
def TimerPolled (t : Task) : Prop := t.gate.Steady ∧ ∀ dr dl y, t.await = .moving dr dl y → y = true ∧ t.gate.now < dl

/-- The end of a step waits on no timer. -/
theorem endStep_ahead {g : Gate} (hs : g.Steady) (result : Option GateCommand) : TimerAhead (g.endStep result) := ⟨hs, nofun⟩

/-- The loop of `drive` arms a timer that is ahead. -/
theorem driveLoop_ahead {g : Gate} (hs : g.Steady) (dr : Drive) : TimerAhead (g.driveLoop dr) := by
  have hshows : (g.driveLoop dr).Holds (Shows g.now) := (shows_step g.now).within.driveLoop ⟨hs, rfl⟩
  refine ⟨hshows.1, fun dr' dl y ha => ?_⟩
  rw [hshows.2]
  unfold Gate.driveLoop at ha
  split at ha
  · cases ha
  · simp only at ha
    split at ha
    · cases ha
    · rename_i deadline hd
      obtain ⟨rfl, rfl, rfl⟩ := Await.moving.inj ha
      have hlt := pass_ahead g dr hd
      rwa [Gate.tick_of_steady hs] at hlt

/-- A command that is executed arms a timer that is ahead, or none. -/
theorem execute_ahead {g : Gate} (hs : g.Steady) (c : GateCommand) : TimerAhead (g.execute c) := by
  have hdrive (d : Direction) : TimerAhead (g.drive d) := by
    unfold Gate.drive
    split
    · exact endStep_ahead hs none
    · have htick : g.board.clock.tick = g.board.clock := Clock.tick_of_steady hs
      exact driveLoop_ahead (hs.of_clock htick) _
  unfold Gate.execute
  split
  · exact hdrive _
  · exact hdrive _
  · exact endStep_ahead ((hs.stopLeaf .a).stopLeaf .b) none
  · exact endStep_ahead ((hs.stopLeaf .a).stopLeaf .b) none

/-- At rest, the task arms a timer that is ahead, or none. -/
theorem idleSelect_ahead {g : Gate} (hs : g.Steady) :
    (∃ r : Task, g.idleSelect = r.proceed ∧ TimerAhead r) ∨ ∃ s, g.idleSelect = .halt s ∧ TimerPolled s := by
  unfold Gate.idleSelect
  split
  · exact Or.inl ⟨_, rfl, execute_ahead (g := g.takeCommand) hs _⟩
  · split
    · exact Or.inl ⟨_, rfl, endStep_ahead (g := g.takeWindLockReset) hs none⟩
    · exact Or.inr ⟨_, rfl, hs, nofun⟩

/-- A timer that is ahead is left so, or armed anew. -/
theorem driveSelectSignals_ahead {g : Gate} (hs : g.Steady) {dr : Drive} {dl : Instant} (hn : g.now < dl) :
    (∃ r : Task, g.driveSelectSignals dr dl = r.proceed ∧ TimerAhead r) ∨
      ∃ s, g.driveSelectSignals dr dl = .halt s ∧ TimerPolled s := by
  unfold Gate.driveSelectSignals
  split
  · split
    · exact Or.inl ⟨_, rfl, driveLoop_ahead (g := g.takeCommand) hs dr⟩
    · have hclock : (g.takeCommand.endDrive dr).Steady := steady_step (@Step.finish _ dr none) (hs.of_clock rfl)
      exact Or.inl ⟨_, rfl, endStep_ahead hclock _⟩
  · split
    · exact Or.inl ⟨_, rfl, driveLoop_ahead (g := g.takeBarrierChanged) hs dr⟩
    · split
      · exact Or.inl ⟨_, rfl, driveLoop_ahead (g := g.takeWindLockReset.record .notify) hs dr⟩
      · refine Or.inr ⟨_, rfl, hs, fun dr' dl' y ha => ?_⟩
        obtain ⟨-, rfl, rfl⟩ := Await.moving.inj ha
        exact ⟨rfl, hn⟩

/-- A poll ends with the timer polled and ahead. -/
theorem poll_ahead {t : Task} (hs : t.gate.Steady) (hy : ∀ dr dl, t.await ≠ .moving dr dl false) : TimerPolled t.poll := by
  refine Task.poll_rule (P := fun s => s.gate.Steady ∧ ∀ dr dl, s.await = .moving dr dl false → s.gate.now < dl)
    (Q := TimerPolled) ⟨hs, fun dr dl ha => absurd ha (hy dr dl)⟩ fun s ⟨hs, hy⟩ => ?_
  have hturn : (∃ r : Task, s.advance = r.proceed ∧ TimerAhead r) ∨ ∃ s', s.advance = .halt s' ∧ TimerPolled s' := by
    unfold Task.advance
    split
    · split
      · rename_i c _
        exact Or.inl ⟨_, rfl, execute_ahead (g := { s.gate with pending := none }) hs c⟩
      · exact idleSelect_ahead hs
    · exact idleSelect_ahead hs
    · rename_i dr dl y ha
      unfold Gate.driveSelect
      rw [Gate.tick_of_steady hs]
      split
      · split
        · exact Or.inl ⟨_, rfl, driveLoop_ahead hs dr⟩
        · rename_i hn
          exact driveSelectSignals_ahead hs (Nat.lt_of_not_le hn)
      · rename_i hfalse
        obtain rfl : y = false := by simpa using hfalse
        exact driveSelectSignals_ahead hs (hy dr dl ha)
  refine hturn.imp_left fun ⟨r, he, hr⟩ =>
    ⟨r, he, fun ⟨sn, ha⟩ => ⟨hr.1, fun dr dl y hm => ?_⟩, fun _ => ⟨hr.1, fun dr dl => hr.2 dr dl false⟩⟩
  rw [ha] at hm
  cases hm

/-! ## What holds along a run -/

/-- The shape, the deadlines and the relay traces, with the clock standing still. -/
structure Kept (m₀ : (leaf : Leaf) → Motor leaf) (g : Gate) (p : Point) : Prop where
  shape : Shape g p
  steady : g.Steady
  due : Due g p
  replays : Replays m₀ g

variable {m₀ : (leaf : Leaf) → Motor leaf}

/-- Every step keeps the shape, the deadlines and the relay traces. -/
theorem kept_step : Preserved (Kept m₀) := fun _ _ _ _ hs h =>
  ⟨shape_step hs h.shape, steady_step hs h.steady, due_step hs h.shape h.steady h.due,
    replays_step hs h.shape h.steady h.replays⟩

/-- A call keeps the shape, the deadlines and the relay traces. -/
theorem kept_call (t : Task) (c : Call) (h : t.Holds (Kept m₀)) : (t.call c).Holds (Kept m₀) := by
  refine ⟨shape_call t c h.shape, h.steady, ?_, h.replays.congr (by simp [Task.call]) fun _ => rfl⟩
  have hd := h.due
  obtain ⟨g, w⟩ := t
  cases w with
  | moving dr dl y => exact ⟨Runs.congr hd.1 (by simp [Task.call]), hd.2⟩
  | _ => trivial

/-- Waiting keeps them, too, as the clock is read once in the poll that follows. -/
theorem kept_wait (t : Task) (sleep : Duration) (h : t.Holds (Kept m₀)) : (t.wait sleep steady).Holds (Kept m₀) := by
  refine ⟨shape_wait t sleep steady h.shape, rfl, ?_, h.replays.congr (by simp [Task.wait]) fun _ => rfl⟩
  have hd := h.due
  obtain ⟨g, w⟩ := t
  cases w with
  | moving dr dl y => exact ⟨Runs.congr hd.1 (by simp [Task.wait]), hd.2⟩
  | _ => trivial

/-- What holds between two events: the timer the gate waits on has been polled and is ahead. -/
def Suspended (m₀ : (leaf : Leaf) → Motor leaf) (t : Task) : Prop := t.Holds (Kept m₀) ∧ TimerPolled t

/-- Every event with one reading of the clock keeps it. -/
theorem suspended_next (t : Task) (e : Event) (he : e.Steady) (h : Suspended m₀ t) : Suspended m₀ (t.next e) := by
  cases e with
  | call c => exact ⟨kept_call t c h.1, h.2⟩
  | poll sleep lag =>
    obtain rfl : lag = steady := he
    refine ⟨kept_step.poll (kept_wait t sleep h.1), poll_ahead rfl fun dr dl ha => ?_⟩
    cases (h.2.2 dr dl false ha).1

/-- It holds after boot. -/
theorem suspended_boot (early : List Call) (a b : MotorSettings) (locked : Bool) :
    Suspended (fun leaf => (boot early a b locked).gate.motor leaf) (boot early a b locked) :=
  ⟨⟨shape_boot early a b locked, rfl, trivial, replays_boot early a b locked⟩, rfl, nofun⟩

/-- A relay that is energized belongs to a leaf that runs, and the leaf's phase says until when. -/
theorem runs_of_high {g : Gate} {dr : Drive} (h : g.InMotion dr) (hruns : Runs g dr) {leaf : Leaf} {d : Direction}
    (hp : g.board.levels ⟨leaf, d⟩ = true) :
    ∃ since r, (g.motor leaf).state = .running d since ∧ (g.motor leaf).runTime d = some r ∧
      dr.phase leaf = .running (since + r) := by
  obtain rfl : d = dr.direction := h.of_high hp
  have hphase := h.phase leaf
  cases hph : dr.phase leaf with
  | running stopAt =>
    obtain ⟨since, r, hs, hr, rfl⟩ := hruns leaf stopAt hph
    exact ⟨since, r, hs, hr, rfl⟩
  | _ =>
    have hi : (g.motor leaf).state = .idle := hphase.idle (by rw [hph]; nofun)
    rw [h.wired leaf, Motor.energized_idle hi] at hp
    cases hp

/-! ## What an executor that is not late makes of it -/

/-- No leaf runs for longer than its run time. -/
def Timely (g : Gate) : Prop :=
  ∀ leaf d since, (g.motor leaf).state = .running d since → ∃ r, (g.motor leaf).runTime d = some r ∧ g.now ≤ since + r

/-- In a relay trace, what was switched on was switched off after no longer than the run time it then had. -/
def Lasted {leaf : Leaf} (m : Motor leaf) (done : List Switch) : Prop :=
  ∀ before s d x rest, done = before ++ ⟨s, d, true⟩ :: x :: rest →
    ∃ t r, x = ⟨t, d, false⟩ ∧ (m.replay before).runTime d = some r ∧ t ≤ s + r

/-- One more switch matters if it follows one that switched a relay on. -/
theorem Lasted.concat {leaf : Leaf} {m : Motor leaf} {done : List Switch} (h : Lasted m done) {x : Switch}
    (hx : ∀ before s d, done = before ++ [⟨s, d, true⟩] →
      ∃ t r, x = ⟨t, d, false⟩ ∧ (m.replay before).runTime d = some r ∧ t ≤ s + r) : Lasted m (done ++ [x]) := by
  intro before s d y rest he
  rcases List.eq_nil_or_concat rest with rfl | ⟨rest, z, rfl⟩
  · have he' : done ++ [x] = (before ++ [⟨s, d, true⟩]) ++ [y] := by rw [he, List.append_assoc]; rfl
    obtain ⟨hdone, hxy⟩ := List.append_inj' he' rfl
    obtain rfl : x = y := by simpa using hxy
    exact hx before s d hdone
  · have he' : done ++ [x] = (before ++ ⟨s, d, true⟩ :: y :: rest) ++ [z] := by
      rw [he, List.concat_eq_append, List.append_assoc]
      rfl
    exact h before s d y rest (List.append_inj' he' rfl).1

/-- No energization has lasted, or lasts, longer than its run time. -/
structure Lasting (m₀ : (leaf : Leaf) → Motor leaf) (g : Gate) : Prop where
  timely : Timely g
  lasted : ∀ leaf, Lasted (m₀ leaf) (switches leaf g.board.trace)

/-- It depends on the motors, the time and the trace only. -/
theorem Lasting.congr {g g' : Gate} (h : Lasting m₀ g) (hm : ∀ leaf, g'.motor leaf = g.motor leaf) (hn : g'.now = g.now)
    (hs : ∀ leaf, switches leaf g'.board.trace = switches leaf g.board.trace) : Lasting m₀ g' where
  timely := fun leaf d since hr => by
    rw [hm] at hr ⊢
    rw [hn]
    exact h.timely leaf d since hr
  lasted := fun leaf => by rw [hs]; exact h.lasted leaf

/-- A leaf that starts has run for no time yet. -/
theorem Lasting.startLeaf {g : Gate} (h : Lasting m₀ g) (hs : g.Steady) (hw : g.Wired) (hreplays : Replays m₀ g) {leaf : Leaf}
    (hi : (g.motor leaf).state = .idle) {d : Direction} {r : Duration} (hr : (g.motor leaf).runTime d = some r) :
    Lasting m₀ (g.startLeaf leaf d) where
  timely := fun leaf' d' since hrun => by
    rw [Gate.startLeaf_now hs]
    by_cases hl : leaf' = leaf
    · subst hl
      rw [Gate.startLeaf_motor_of_steady hs hi] at hrun ⊢
      obtain ⟨rfl, rfl⟩ := MotorState.running.inj hrun
      exact ⟨r, hr, Nat.le_add_right _ _⟩
    · rw [Gate.startLeaf_motor_other g hl] at hrun ⊢
      exact h.timely leaf' d' since hrun
  lasted := fun leaf' => by
    rw [switches_startLeaf hs hi (hw leaf)]
    by_cases hl : leaf' = leaf
    · subst hl
      rw [if_pos rfl]
      refine (h.lasted leaf').concat fun before s d' he => ?_
      have hstate := hreplays leaf'
      rw [he, Motor.replay_append] at hstate
      rw [hstate] at hi
      cases hi
    · rw [if_neg (Ne.symm hl), List.append_nil]
      exact h.lasted leaf'

/-- A leaf that stops has lasted no longer than it may. -/
theorem Lasting.stopLeaf {g : Gate} (h : Lasting m₀ g) (hs : g.Steady) (hw : g.Wired) (hreplays : Replays m₀ g) (leaf : Leaf) :
    Lasting m₀ (g.stopLeaf leaf) := by
  cases hr : (g.motor leaf).state with
  | idle =>
    rw [Gate.stopLeaf_of_idle hr]
    exact h
  | running d since =>
    refine ⟨fun leaf' d' since' hrun => ?_, fun leaf' => ?_⟩
    · rw [Gate.stopLeaf_now hs]
      by_cases hl : leaf' = leaf
      · subst hl
        rw [Gate.stopLeaf_motor_self, Motor.stop_state] at hrun
        cases hrun
      · rw [Gate.stopLeaf_motor_other g hl] at hrun ⊢
        exact h.timely leaf' d' since' hrun
    · rw [switches_stopLeaf hs hr (hw leaf)]
      by_cases hl : leaf' = leaf
      · subst hl
        rw [if_pos rfl]
        refine (h.lasted leaf').concat fun before s d' he => ?_
        obtain ⟨r, hrun, hn⟩ := h.timely leaf' d since hr
        have hmotor := hreplays leaf'
        rw [he, Motor.replay_append, Motor.switch_on] at hmotor
        rw [hmotor] at hr hrun
        obtain ⟨rfl, rfl⟩ := MotorState.running.inj hr
        exact ⟨g.now, r, rfl, hrun, hn⟩
      · rw [if_neg (Ne.symm hl), List.append_nil]
        exact h.lasted leaf'

/-- Every step keeps it, with the deadlines kept. -/
theorem lasting_step {g g' : Gate} {p p' : Point} (hs : Step g p g' p') (hk : Kept m₀ g p) (h : Lasting m₀ g) :
    Lasting m₀ g' := by
  have hnow := now_step hs hk.steady
  have hshape := hk.shape
  cases hs with
  | @begin c d hc hb => exact h.congr (by simp) hnow fun _ => rfl
  | stop hc =>
    rw [hshape.1.still.stopBoth]
    exact h
  | @start dr leaf now at' r hp hn hr =>
    exact h.startLeaf hk.steady hshape.wired hk.replays ((hshape.phase leaf).idle (by rw [hp]; nofun)) hr
  | complete hp hn => exact h.stopLeaf hk.steady hshape.wired hk.replays _
  | @finish dr result =>
    have ha := h.stopLeaf hk.steady hshape.1.wired hk.replays .a
    have hb := ha.stopLeaf (hk.steady.stopLeaf .a) (hshape.1.wired.stopLeaf .a) (hk.replays.stopLeaf hk.steady hshape.1.wired .a) .b
    exact Gate.endDrive_rule (P := Lasting m₀) hb (fun _ h => h.congr (by simp) rfl fun _ => rfl)
      (fun _ h => h.congr (by simp) rfl fun _ => rfl) dr
  | settle => exact h.congr (by simp) hnow fun _ => rfl
  | refuse | block | notDue | skip | keep | timer | suspend | rest => exact h
  | takePending | takeCommand | takeReset | look | readClock | sameCommand | interrupt | barrier | announce =>
    exact h.congr (by simp) hnow fun _ => rfl

/-- A sleep that ends no later than the timer the gate waits on lets no leaf run for too long. -/
theorem lasting_wait {t : Task} {sleep : Duration} (hk : t.Holds (Kept m₀))
    (hdl : ∀ dr dl y, t.await = .moving dr dl y → t.gate.now + sleep ≤ dl) (h : Lasting m₀ t.gate) :
    Lasting m₀ (t.wait sleep steady).gate := by
  refine ⟨fun leaf d since hrun => ?_, h.lasted⟩
  have hmotor : (t.wait sleep steady).gate.motor leaf = t.gate.motor leaf := by simp [Task.wait]
  rw [hmotor] at hrun ⊢
  have still (hs : t.gate.Still) : ∃ r, (t.gate.motor leaf).runTime d = some r ∧ (t.wait sleep steady).gate.now ≤ since + r := by
    rw [hs leaf] at hrun
    cases hrun
  have hshape := hk.shape
  have hdue := hk.due
  cases ha : t.await with
  | settled s =>
    rw [ha] at hshape
    exact still hshape.1.still
  | idle =>
    rw [ha] at hshape
    exact still hshape.1.still
  | moving dr dl y =>
    rw [ha] at hshape hdue
    have hhigh : t.gate.board.levels ⟨leaf, d⟩ = true := by
      rw [hshape.wired leaf, Motor.energized_running hrun]
      exact beq_self_eq_true d
    obtain ⟨since', r, hs, hr, hp⟩ := runs_of_high hshape hdue.1 hhigh
    obtain ⟨-, rfl⟩ := MotorState.running.inj (hrun.symm.trans hs)
    exact ⟨r, hr, Nat.le_trans (hdl dr dl y ha) (deadline_le hdue.2 leaf (Or.inl hp))⟩

/-- An opening: leaf B starts on time, and an OPEN comes four seconds later. -/
def opening : List Event :=
  [.call .open, .poll 0 steady, .poll (fromSecs 3) steady, .call .open, .poll (fromSecs 4) steady]

/-- The installation, closed, when it has booted. -/
def closed : Task := boot [] (settingsOf leafA 0) (settingsOf leafB 0) false

/-- The installation after these events. -/
def opened : Task := after [] (settingsOf leafA 0) (settingsOf leafB 0) false opening

end DeadlineAux

open DeadlineAux

/-- No relay overstays its deadline, in every run of calls and polls with one reading of the clock each, however late. Whenever the gate
waits within a movement, every relay that is energized was switched on, from the position its relays had brought the leaf to, less than
that position's run time ago, and the timer is set for no later than the end of that run and the start of a leaf that waits. No run
time is longer than a full run and the overrun. And if no poll comes later than the timer, no energization lasts longer than its run
time. -/
theorem relays_meet_deadlines (early : List Call) (a b : MotorSettings) (locked : Bool) (events : List Event)
    (he : ∀ e ∈ events, e.Steady) :
    let t := after early a b locked events
    let m₀ := fun leaf => (boot early a b locked).gate.motor leaf
    (∀ dr dl y, t.await = .moving dr dl y →
        (∀ leaf d, t.gate.board.levels ⟨leaf, d⟩ = true →
          ∃ before s r, switches leaf t.gate.board.trace = before ++ [⟨s, d, true⟩] ∧
            ((m₀ leaf).replay before).runTime d = some r ∧ t.gate.now < s + r ∧ dl ≤ s + r) ∧
          ∀ leaf startAt, dr.phase leaf = .waiting startAt → dl ≤ startAt) ∧
      (∀ leaf d before r, ((m₀ leaf).replay before).runTime d = some r →
        r ≤ (m₀ leaf).fullDuration d + (m₀ leaf).endStopOverrun) ∧
      (Allowed Task.next Punctual (boot early a b locked) events →
        ∀ leaf before s d x rest, switches leaf t.gate.board.trace = before ++ ⟨s, d, true⟩ :: x :: rest →
          ∃ t r, x = ⟨t, d, false⟩ ∧ ((m₀ leaf).replay before).runTime d = some r ∧ t ≤ s + r) := by
  intro t m₀
  have hidle (leaf : Leaf) : (m₀ leaf).state = .idle := by cases leaf <;> rfl
  have hok : Allowed Task.next (fun _ => Event.Steady) (boot early a b locked) events := allowed_of_forall he _
  have hsus : Suspended m₀ t := run_invariant (P := Suspended m₀) suspended_next (suspended_boot early a b locked) hok
  refine ⟨fun dr dl y ha => ?_, fun leaf d before r hr => ?_, fun hpunctual leaf => ?_⟩
  · have hshape := hsus.1.shape
    have hdue := hsus.1.due
    rw [ha] at hshape hdue
    refine ⟨fun leaf d hp => ?_, fun leaf startAt hp => deadline_le hdue.2 leaf (Or.inr hp)⟩
    obtain ⟨since, r, hs, hr, hphase⟩ := runs_of_high hshape hdue.1 hp
    have hmotor := hsus.1.replays leaf
    rw [hmotor] at hs
    obtain ⟨before, hsw⟩ := Motor.replay_running (hidle leaf) hs
    rw [hmotor, hsw, Motor.replay_append] at hr
    have hdl : dl ≤ since + r := deadline_le hdue.2 leaf (Or.inl hphase)
    exact ⟨before, since, r, hsw, hr, Nat.lt_of_lt_of_le (hsus.2.2 dr dl y ha).2 hdl, hdl⟩
  · have hset := (m₀ leaf).replay_settings before
    have hle := Motor.runTime_le hr
    rw [hset.2] at hle
    unfold Motor.fullDuration at hle ⊢
    rwa [hset.1] at hle
  · have hI : Preserved fun g p => Kept m₀ g p ∧ Lasting m₀ g := fun _ _ _ _ hs h =>
      ⟨kept_step hs h.1, lasting_step hs h.1 h.2⟩
    have hlasting := hI.run (fun t c _ h => ⟨kept_call t c h.1, h.2.congr (by simp [Task.call]) rfl fun _ => rfl⟩)
      (fun t d lag hp h => ?_) ⟨(suspended_boot early a b locked).1, ?_⟩ hpunctual
    · exact hlasting.2.lasted leaf
    · obtain ⟨rfl, hdl⟩ := hp
      exact ⟨kept_wait t d h.1, lasting_wait h.1 hdl h.2⟩
    · have hnone (leaf : Leaf) : switches leaf (boot early a b locked).gate.board.trace = [] := by cases leaf <;> rfl
      refine ⟨fun leaf d since hr => ?_, fun leaf before s d x rest h => ?_⟩
      · cases (hidle leaf).symm.trans hr
      · rw [hnone] at h
        exact absurd (congrArg List.length h) (by simp)

/-- The installation, opened from closed: after seven seconds leaf B has run for four of its sixteen. -/
theorem relays_meet_deadlines_opening :
    ∃ before s r, switches .b opened.gate.board.trace = before ++ [⟨s, .opening, true⟩] ∧
      ((closed.gate.motor .b).replay before).runTime .opening = some r ∧ opened.gate.now < s + r ∧ fromSecs 16 ≤ s + r := by
  have h := relays_meet_deadlines [] (settingsOf leafA 0) (settingsOf leafB 0) false opening (by simp [opening, Event.Steady])
  have hwaits : opened.await =
      .moving ⟨.opening, .running (fromSecs 16), .running (fromSecs 19), true⟩ (fromSecs 16) true := by decide +kernel
  exact (h.1 _ _ _ hwaits).1 .b .opening (by decide +kernel)

end GateLink
