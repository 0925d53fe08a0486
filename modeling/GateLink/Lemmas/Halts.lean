import GateLink.Lemmas.Pass
import GateLink.Lemmas.Poll

/-!
# When a poll leaves no movement under way

A poll goes around the loop of `drive` once if its timer is due, and once for each signal that it takes; each time it passes over the leaves.
The movement ends in the poll if a command for another action is taken, if it is blocked, or if one of these passes finds neither leaf with
anything left to do. All of this is so before the poll, with the lags that it will have (`Task.Halts`); and a poll of which it is not so leaves
the gate moving (`Task.halts_poll`, `Task.moving_poll`).
-/

namespace GateLink

open Machine

/-! ## The condition -/

/-- The movement ends within so many passes over the leaves: it is blocked, or a pass finds neither leaf with anything left to do. -/
def Gate.EndsWithin : Nat → Gate → Drive → Prop
  | 0, _, _ => False
  | n + 1, g, dr => g.controls.blocked dr.direction ≠ none ∨
      (∀ leaf, (dr.phase leaf).Over ((g.motor leaf).runTime dr.direction) g.tick.now) ∨ EndsWithin n (g.pass dr).1 (g.pass dr).2

/-- The command in the slot is for another action. -/
def Gate.Interrupted (g : Gate) (dr : Drive) : Prop := ∃ c, g.controls.command = some c ∧ c ≠ commandFor dr.direction

/-- The movement ends in a poll that makes so many passes over the leaves, and one more for each signal that is set. -/
def Gate.EndsIn (g : Gate) (dr : Drive) (passes : Nat) : Prop := g.Interrupted dr ∨ g.EndsWithin (passes + g.controls.signals) dr

/-- A poll that executes a command starts no movement, or ends it. -/
def Gate.HaltsExecuting (g : Gate) (c : GateCommand) : Prop :=
  ∀ d, g.controls.resolveImpulse c = commandFor d → g.controls.blocked d = none → (g.begin d).EndsIn ((g.begin d).initialDrive d) 1

/-- The poll leaves no movement under way: it ends the one that is, and starts none from a pending command or from the slot, or ends it. -/
def Task.Halts (t : Task) : Prop :=
  match t.await, t.gate.pending with
  | .moving dr dl yielded, _ =>
    if yielded then t.gate.tick.EndsIn dr (if dl ≤ t.gate.tick.now then 1 else 0) else t.gate.EndsIn dr 0
  | .settled _, some c => { t.gate with pending := none }.HaltsExecuting c
  | _, _ => ∀ c, t.gate.controls.command = some c → t.gate.takeCommand.HaltsExecuting c

/-! ## What a pass depends on -/

/-- Two gates with the same leaves and the same clock, in which the same is blocked. -/
structure Gate.Alike (g g' : Gate) : Prop where
  motor : ∀ leaf, g.motor leaf = g'.motor leaf
  clock : g.board.clock = g'.board.clock
  blocked : ∀ d, g.controls.blocked d = g'.controls.blocked d

/-- Settling a motor depends on the clock only. -/
theorem Motor.settle_congr {leaf : Leaf} (m : Motor leaf) {bd bd' : Board} (h : bd.clock = bd'.clock) :
    (m.settle bd).1 = (m.settle bd').1 ∧ (m.settle bd).2.clock = (m.settle bd').2.clock := by
  unfold settle
  cases m.state with
  | idle => exact ⟨rfl, h⟩
  | running d start => simp [Board.now, Board.setLow, h]

/-- Starting it, too. -/
theorem Motor.start_congr {leaf : Leaf} (m : Motor leaf) (d : Direction) {bd bd' : Board} (h : bd.clock = bd'.clock) :
    (m.start d bd).1 = (m.start d bd').1 ∧ (m.start d bd).2.clock = (m.start d bd').2.clock := by
  obtain ⟨hm, hc⟩ := m.settle_congr h
  unfold start
  cases d <;> simp [Board.now, Board.setLow, Board.setHigh, hm, hc]

namespace Gate.Alike

variable {g g' : Gate} (h : g.Alike g')

include h

/-- The two gates may be exchanged. -/
theorem symm : g'.Alike g where
  motor := fun leaf => (h.motor leaf).symm
  clock := h.clock.symm
  blocked := fun d => (h.blocked d).symm

/-- They read the same time. -/
theorem now : g.now = g'.now := congrArg Clock.now h.clock

/-- A clock reading keeps them alike. -/
theorem tick : g.tick.Alike g'.tick where
  motor := by simpa using h.motor
  clock := congrArg Clock.tick h.clock
  blocked := h.blocked

/-- What changes one leaf in the same way keeps two gates alike. -/
theorem leaf {k k' : Gate} (leaf : Leaf) (hself : k.motor leaf = k'.motor leaf)
    (hother : ∀ leaf', leaf' ≠ leaf → k.motor leaf' = g.motor leaf') (hother' : ∀ leaf', leaf' ≠ leaf → k'.motor leaf' = g'.motor leaf')
    (hclock : k.board.clock = k'.board.clock) (hc : k.controls = g.controls) (hc' : k'.controls = g'.controls) : k.Alike k' where
  motor := fun leaf' => by
    by_cases hl : leaf' = leaf
    · exact hl ▸ hself
    · rw [hother leaf' hl, hother' leaf' hl, h.motor]
  clock := hclock
  blocked := by
    rw [hc, hc']
    exact h.blocked

/-- Stopping a leaf keeps them alike. -/
theorem stopLeaf (leaf : Leaf) : (g.stopLeaf leaf).Alike (g'.stopLeaf leaf) := by
  obtain ⟨hm, hclock⟩ := (g'.motor leaf).settle_congr h.clock
  refine h.leaf leaf ?_ (fun _ hl => Gate.stopLeaf_motor_other g hl) (fun _ hl => Gate.stopLeaf_motor_other g' hl) ?_
    (Gate.stopLeaf_controls g leaf) (Gate.stopLeaf_controls g' leaf)
  · rw [Gate.stopLeaf_motor_self, Gate.stopLeaf_motor_self, h.motor leaf]
    exact hm
  · rw [Gate.stopLeaf_board, Gate.stopLeaf_board, h.motor leaf]
    exact hclock

/-- Starting a leaf keeps them alike. -/
theorem startLeaf (leaf : Leaf) (d : Direction) : (g.startLeaf leaf d).Alike (g'.startLeaf leaf d) := by
  obtain ⟨hm, hclock⟩ := (g'.motor leaf).start_congr d h.clock
  refine h.leaf leaf ?_ (fun _ hl => Gate.startLeaf_motor_other g hl d) (fun _ hl => Gate.startLeaf_motor_other g' hl d) ?_
    (Gate.startLeaf_controls g leaf d) (Gate.startLeaf_controls g' leaf d)
  · rw [Gate.startLeaf_motor_self, Gate.startLeaf_motor_self, h.motor leaf]
    exact hm
  · rw [Gate.startLeaf_board, Gate.startLeaf_board, h.motor leaf]
    exact hclock

/-- Starting a leaf that is due keeps them alike, and leaves both with the same drive. -/
theorem startIfDue (dr : Drive) (leaf : Leaf) (now : Instant) :
    (g.startIfDue dr leaf now).1.Alike (g'.startIfDue dr leaf now).1 ∧ (g.startIfDue dr leaf now).2 = (g'.startIfDue dr leaf now).2 := by
  unfold Gate.startIfDue
  cases dr.phase leaf with
  | done => exact ⟨h, rfl⟩
  | running stopAt => exact ⟨h, rfl⟩
  | waiting startAt =>
    simp only [h.motor leaf]
    by_cases hn : startAt ≤ now
    · rw [if_pos hn, if_pos hn]
      cases (g'.motor leaf).runTime dr.direction with
      | none => exact ⟨h, rfl⟩
      | some runTime => exact ⟨h.startLeaf leaf dr.direction, rfl⟩
    · rw [if_neg hn, if_neg hn]
      exact ⟨h, rfl⟩

/-- Stopping a leaf that is due does so as well. -/
theorem stopIfDue (dr : Drive) (leaf : Leaf) (now : Instant) :
    (g.stopIfDue dr leaf now).1.Alike (g'.stopIfDue dr leaf now).1 ∧ (g.stopIfDue dr leaf now).2 = (g'.stopIfDue dr leaf now).2 := by
  unfold Gate.stopIfDue
  cases dr.phase leaf with
  | done => exact ⟨h, rfl⟩
  | waiting startAt => exact ⟨h, rfl⟩
  | running stopAt =>
    simp only
    by_cases hn : stopAt ≤ now
    · rw [if_pos hn, if_pos hn]
      exact ⟨h.stopLeaf leaf, rfl⟩
    · rw [if_neg hn, if_neg hn]
      exact ⟨h, rfl⟩

/-- One pass over a leaf does the same to both. -/
theorem passLeaf (dr : Drive) (leaf : Leaf) (now : Instant) :
    (g.passLeaf dr leaf now).1.Alike (g'.passLeaf dr leaf now).1 ∧ (g.passLeaf dr leaf now).2 = (g'.passLeaf dr leaf now).2 := by
  obtain ⟨hstart, hdrive⟩ := h.startIfDue dr leaf now
  unfold Gate.passLeaf
  simp only [hdrive]
  exact hstart.stopIfDue _ leaf now

/-- A pass does the same to both. -/
theorem pass (dr : Drive) : (g.pass dr).1.Alike (g'.pass dr).1 ∧ (g.pass dr).2 = (g'.pass dr).2 := by
  obtain ⟨ha, hdrive⟩ := h.tick.passLeaf dr .a g'.tick.now
  unfold Gate.pass
  simp only [h.tick.now, hdrive]
  exact ha.passLeaf _ .b g'.tick.now

/-- A movement ends in both within as many passes. -/
theorem endsWithin {n : Nat} {dr : Drive} (hends : g.EndsWithin n dr) : g'.EndsWithin n dr := by
  induction n generalizing g g' dr with
  | zero => exact hends
  | succ n ih =>
    obtain ⟨hpass, hdrive⟩ := h.pass dr
    rcases hends with hb | hover | hlater
    · exact Or.inl (h.blocked _ ▸ hb)
    · refine Or.inr (Or.inl fun leaf => ?_)
      rw [← h.motor, ← h.tick.now]
      exact hover leaf
    · exact Or.inr (Or.inr (hdrive ▸ ih hpass hlater))

end Gate.Alike

/-! ## A poll -/

namespace HaltsAux

/-- No movement is under way. -/
def Rests (s : Task) : Prop := ∀ dr dl y, s.await ≠ .moving dr dl y

/-- Between two steps no movement is under way. -/
theorem rests_settled {s : Task} (h : s.Settled) : Rests s := by
  obtain ⟨sn, ha⟩ := h
  intro dr dl y hm
  cases ha.symm.trans hm

/-- The loop of `drive`, with a pass to make, ends the step or goes on to the passes that are left. -/
theorem driveLoop_endsIn {g : Gate} {dr : Drive} {passes : Nat} (h : g.EndsIn dr (passes + 1)) :
    (g.driveLoop dr).Settled ∨ ∃ dr' dl, (g.driveLoop dr).await = .moving dr' dl false ∧ (g.driveLoop dr).gate.EndsIn dr' passes := by
  have hab : Leaf.b ≠ Leaf.a := nofun
  unfold Gate.driveLoop
  split
  · exact Or.inl ⟨_, rfl⟩
  · rename_i hb
    simp only
    split
    · exact Or.inl ⟨_, rfl⟩
    · rename_i deadline hd
      refine Or.inr ⟨_, _, rfl, ?_⟩
      unfold Gate.EndsIn Gate.Interrupted
      rw [Gate.pass_controls, pass_direction]
      rcases h with hother | hends
      · exact Or.inl hother
      · rw [Nat.succ_add] at hends
        refine Or.inr ?_
        rcases hends with hblocked | hover | hlater
        · exact absurd hb hblocked
        · cases ((pass_ends_iff g dr).mpr hover).symm.trans hd
        · exact hlater

/-- What a turn comes to in such a poll. -/
def Comes (turn : Turn Task) : Prop :=
  (∃ r : Task, turn = r.proceed ∧ (r.Settled → Rests r) ∧ (¬r.Settled → r.Halts)) ∨ ∃ s, turn = .halt s ∧ Rests s

/-- With the end of a step, no movement is left. -/
theorem comes_settled {r : Task} (h : r.Settled) : Comes r.proceed :=
  Or.inl ⟨r, rfl, rests_settled, fun hn => absurd h hn⟩

/-- A movement that is just under way ends in the passes that are left. -/
theorem comes_moving {r : Task} (h : r.Settled ∨ ∃ dr dl, r.await = .moving dr dl false ∧ r.gate.EndsIn dr 0) : Comes r.proceed := by
  refine Or.inl ⟨r, rfl, rests_settled, fun hn => ?_⟩
  obtain ⟨dr, dl, ha, hends⟩ := h.resolve_left hn
  unfold Task.Halts
  rw [ha]
  exact hends

/-- A command that is executed starts no movement, or one that ends in this poll. -/
theorem execute_comes {g : Gate} {c : GateCommand} (h : g.HaltsExecuting c) : Comes (g.execute c).proceed := by
  have drives (d : Direction) (hc : g.controls.resolveImpulse c = commandFor d) : Comes (g.drive d).proceed := by
    unfold Gate.drive
    split
    · exact comes_settled ⟨_, rfl⟩
    · rename_i hb
      exact comes_moving (driveLoop_endsIn (h d hc hb))
  unfold Gate.execute
  split
  · rename_i hc
    exact drives .opening hc
  · rename_i hc
    exact drives .closing hc
  · exact comes_settled ⟨_, rfl⟩
  · exact comes_settled ⟨_, rfl⟩

/-- What a gate at rest takes from its slots leaves no movement. -/
theorem idleSelect_comes {g : Gate} (h : ∀ c, g.controls.command = some c → g.takeCommand.HaltsExecuting c) : Comes g.idleSelect := by
  unfold Gate.idleSelect
  split
  · rename_i c hc
    exact execute_comes (h c hc)
  · split
    · exact comes_settled ⟨_, rfl⟩
    · exact Or.inr ⟨_, rfl, nofun⟩

/-- A signal that is taken leaves one pass less to make. -/
theorem driveLoop_taken {g k : Gate} {dr : Drive} (h : g.EndsIn dr 0) (hc : ¬g.Interrupted dr) (halike : g.Alike k)
    (hsignals : k.controls.signals + 1 = g.controls.signals) : Comes (k.driveLoop dr).proceed := by
  have hends := halike.endsWithin (h.resolve_left hc)
  rw [← hsignals, Nat.add_comm 0, Nat.add_zero, Nat.add_comm] at hends
  exact comes_moving (driveLoop_endsIn (Or.inr hends))

/-- With each signal that is taken, a movement comes nearer to its end. -/
theorem driveSelectSignals_comes {g : Gate} {dr : Drive} {dl : Instant} (h : g.EndsIn dr 0) : Comes (g.driveSelectSignals dr dl) := by
  unfold Gate.driveSelectSignals
  split
  · rename_i c hc
    split
    · rename_i hsame
      exact driveLoop_taken h (fun ⟨c', hc', hother⟩ => by cases hc.symm.trans hc'; exact hother hsame) ⟨by simp, rfl, fun _ => rfl⟩
        (signals_takeCommand hc)
    · exact comes_settled ⟨_, rfl⟩
  · rename_i hc
    have hnone : ¬g.Interrupted dr := fun ⟨c, hc', _⟩ => by cases hc.symm.trans hc'
    split
    · rename_i hb
      exact driveLoop_taken h hnone ⟨by simp, rfl, fun _ => rfl⟩ (signals_takeBarrierChanged hb)
    · rename_i hb
      split
      · rename_i hr
        exact driveLoop_taken (k := g.takeWindLockReset.record .notify) h hnone ⟨by simp, rfl, fun _ => rfl⟩
          (signals_takeWindLockReset hr)
      · rename_i hr
        have hends := h.resolve_left hnone
        simp [Controls.signals, hc, hb, hr, Gate.EndsWithin] at hends

/-- Every turn of such a poll is of this kind. -/
theorem advance_comes {t : Task} (h : t.Halts) : Comes t.advance := by
  unfold Task.Halts at h
  unfold Task.advance
  split
  · rename_i s ha
    rw [ha] at h
    split
    · rename_i c hp
      rw [hp] at h
      exact execute_comes h
    · rename_i hp
      rw [hp] at h
      exact idleSelect_comes h
  · rename_i ha
    rw [ha] at h
    exact idleSelect_comes h
  · rename_i dr dl y ha
    rw [ha] at h
    unfold Gate.driveSelect
    cases y with
    | false => exact driveSelectSignals_comes h
    | true =>
      simp only [if_true] at h ⊢
      by_cases hd : dl ≤ t.gate.tick.now
      · rw [if_pos hd] at h ⊢
        exact comes_moving (driveLoop_endsIn h)
      · rw [if_neg hd] at h ⊢
        exact driveSelectSignals_comes h

/-! ### Otherwise the movement goes on -/

/-- The loop of `drive` goes on to the passes that are left, if the movement does not end in them. -/
theorem driveLoop_goesOn {g : Gate} {dr : Drive} {passes : Nat} (h : ¬g.EndsIn dr (passes + 1)) :
    ∃ dr' dl, (g.driveLoop dr).await = .moving dr' dl false ∧ ¬(g.driveLoop dr).gate.EndsIn dr' passes := by
  unfold Gate.EndsIn at h
  rw [Nat.succ_add] at h
  obtain ⟨hother, hends⟩ := not_or.mp h
  obtain ⟨hb, hrest⟩ := not_or.mp hends
  obtain ⟨hover, hlater⟩ := not_or.mp hrest
  have hdeadline : (g.pass dr).2.nextDeadline ≠ none := fun hnone => hover ((pass_ends_iff g dr).mp hnone)
  obtain ⟨deadline, hd⟩ := Option.ne_none_iff_exists'.mp hdeadline
  have hloop : g.driveLoop dr = { gate := (g.pass dr).1, await := .moving (g.pass dr).2 deadline false } := by
    unfold Gate.driveLoop
    rw [not_not.mp hb]
    simp only [hd]
  refine ⟨_, _, congrArg Task.await hloop, ?_⟩
  rw [hloop]
  unfold Gate.EndsIn Gate.Interrupted
  rw [Gate.pass_controls, pass_direction]
  exact not_or.mpr ⟨hother, hlater⟩

/-- A movement is under way. -/
def Moves (s : Task) : Prop := ∃ dr dl y, s.await = .moving dr dl y

/-- What a turn comes to in a poll that leaves a movement under way. -/
def Lasts (turn : Turn Task) : Prop :=
  (∃ r : Task, turn = r.proceed ∧ (r.Settled → Moves r) ∧ (¬r.Settled → ¬r.Halts)) ∨ ∃ s, turn = .halt s ∧ Moves s

/-- A movement that goes on, and does not end in the passes that are left, lasts. -/
theorem lasts_moving {r : Task} (h : ∃ dr dl, r.await = .moving dr dl false ∧ ¬r.gate.EndsIn dr 0) : Lasts r.proceed := by
  obtain ⟨dr, dl, ha, hends⟩ := h
  refine Or.inl ⟨r, rfl, fun ⟨sn, hs⟩ => ?_, fun _ => ?_⟩
  · cases ha.symm.trans hs
  · unfold Task.Halts
    rw [ha]
    exact hends

/-- A command that is executed starts a movement that lasts. -/
theorem execute_lasts {g : Gate} {c : GateCommand} (h : ¬g.HaltsExecuting c) : Lasts (g.execute c).proceed := by
  unfold Gate.HaltsExecuting at h
  push Not at h
  obtain ⟨d, hc, hb, hends⟩ := h
  have hexecute : g.execute c = (g.begin d).driveLoop ((g.begin d).initialDrive d) := by
    have hdrive : g.execute c = g.drive d := by
      unfold Gate.execute
      rw [hc]
      cases d <;> rfl
    rw [hdrive]
    unfold Gate.drive
    rw [hb]
  rw [hexecute]
  exact lasts_moving (driveLoop_goesOn hends)

/-- A gate at rest takes such a command from its slot. -/
theorem idleSelect_lasts {g : Gate} (h : ¬∀ c, g.controls.command = some c → g.takeCommand.HaltsExecuting c) : Lasts g.idleSelect := by
  push Not at h
  obtain ⟨c, hc, hexecutes⟩ := h
  unfold Gate.idleSelect
  rw [hc]
  exact execute_lasts hexecutes

/-- A signal that is taken leaves one pass less to make. -/
theorem driveLoop_lasts {g k : Gate} {dr : Drive} (h : ¬g.EndsIn dr 0) (halike : g.Alike k)
    (hsignals : k.controls.signals + 1 = g.controls.signals) (hc : k.controls.command = none ∨ k.controls.command = g.controls.command) :
    Lasts (k.driveLoop dr).proceed := by
  obtain ⟨hother, hends⟩ := not_or.mp h
  refine lasts_moving (driveLoop_goesOn (not_or.mpr ⟨fun ⟨c, hc', hne⟩ => ?_, fun hk => ?_⟩))
  · rcases hc with hnone | hsame
    · cases hc'.symm.trans hnone
    · exact hother ⟨c, hsame.symm.trans hc', hne⟩
  · rw [Nat.zero_add, Nat.add_comm, hsignals] at hk
    rw [Nat.zero_add] at hends
    exact hends (halike.symm.endsWithin hk)

/-- The signals that are taken do not end the movement. -/
theorem driveSelectSignals_lasts {g : Gate} {dr : Drive} {dl : Instant} (h : ¬g.EndsIn dr 0) : Lasts (g.driveSelectSignals dr dl) := by
  unfold Gate.driveSelectSignals
  split
  · rename_i c hc
    split
    · exact driveLoop_lasts h ⟨by simp, rfl, fun _ => rfl⟩ (signals_takeCommand hc) (Or.inl rfl)
    · rename_i hother
      exact absurd (Or.inl ⟨c, hc, hother⟩) h
  · split
    · rename_i hb
      exact driveLoop_lasts h ⟨by simp, rfl, fun _ => rfl⟩ (signals_takeBarrierChanged hb) (Or.inr rfl)
    · split
      · rename_i hr
        exact driveLoop_lasts (k := g.takeWindLockReset.record .notify) h ⟨by simp, rfl, fun _ => rfl⟩ (signals_takeWindLockReset hr)
          (Or.inr rfl)
      · exact Or.inr ⟨_, rfl, _, _, _, rfl⟩

/-- Every turn of such a poll leaves a movement under way. -/
theorem advance_lasts {t : Task} (h : ¬t.Halts) : Lasts t.advance := by
  unfold Task.Halts at h
  unfold Task.advance
  split
  · rename_i s ha
    rw [ha] at h
    split
    · rename_i c hp
      rw [hp] at h
      exact execute_lasts h
    · rename_i hp
      rw [hp] at h
      exact idleSelect_lasts h
  · rename_i ha
    rw [ha] at h
    exact idleSelect_lasts h
  · rename_i dr dl y ha
    rw [ha] at h
    unfold Gate.driveSelect
    cases y with
    | false => exact driveSelectSignals_lasts h
    | true =>
      simp only [if_true] at h ⊢
      by_cases hd : dl ≤ t.gate.tick.now
      · rw [if_pos hd] at h ⊢
        exact lasts_moving (driveLoop_goesOn h)
      · rw [if_neg hd] at h ⊢
        exact driveSelectSignals_lasts h

end HaltsAux

open HaltsAux

/-- Such a poll leaves no movement under way. -/
theorem Task.halts_poll {t : Task} (h : t.Halts) (dr : Drive) (dl : Instant) (y : Bool) : t.poll.await ≠ .moving dr dl y :=
  Task.poll_rule (Q := Rests) h (fun _ hs => advance_comes hs) dr dl y

/-- And no other does. -/
theorem Task.moving_poll {t : Task} (h : ¬t.Halts) : ∃ dr dl y, t.poll.await = .moving dr dl y :=
  Task.poll_rule (P := fun s => ¬s.Halts) (Q := Moves) h fun _ hs => advance_lasts hs

end GateLink
