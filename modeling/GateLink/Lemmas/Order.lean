import GateLink.Lemmas.Timing

/-!
# The order of overlapping leaves

In each direction one leaf leads and the other follows: leaf A leads an opening, leaf B a closing. If both leaves take the same time
and the leading one starts first with the reverse pause to spare, the leading leaf is never further from its end than the following
one, whenever the movement is interrupted (`ordered_step`). The invariant looks ahead: it compares what would be left of each leaf if
both were stopped at any later moment.
-/

namespace GateLink

open Machine

/-- The leaf that moves first in a direction. -/
def Direction.lead : Direction → Leaf
  | .opening => .a
  | .closing => .b

/-- The leaf that moves second in a direction. -/
def Direction.follow : Direction → Leaf
  | .opening => .b
  | .closing => .a

theorem Direction.lead_ne_follow (d : Direction) : d.lead ≠ d.follow := by cases d <;> nofun

theorem Direction.eq_lead_or_follow (d : Direction) (leaf : Leaf) : leaf = d.lead ∨ leaf = d.follow := by
  cases d <;> cases leaf <;> simp [lead, follow]

/-- What would be left of the way to the end of a leaf if it was stopped at a time. -/
def Motor.left {leaf : Leaf} (m : Motor leaf) (d : Direction) (time : Instant) : Nat :=
  match m.state with
  | .idle => m.remaining d
  | .running _ since => m.remaining d - m.travelled d (time - since)

theorem Motor.left_of_idle {leaf : Leaf} {m : Motor leaf} (h : m.state = .idle) (d : Direction) (time : Instant) :
    m.left d time = m.remaining d := by
  simp [left, h]

theorem Motor.left_of_running {leaf : Leaf} {m : Motor leaf} {d : Direction} {since : Instant}
    (h : m.state = .running d since) (time : Instant) : m.left d time = m.remaining d - m.travelled d (time - since) := by
  simp [left, h]

/-- Motors that take the same time are credited with the same distance. -/
theorem Motor.travelled_congr {leaf leaf' : Leaf} {m : Motor leaf} {m' : Motor leaf'} {d : Direction}
    (h : m.fullDuration d = m'.fullDuration d) (elapsed : Duration) : m.travelled d elapsed = m'.travelled d elapsed := by
  unfold travelled
  rw [h]

theorem Motor.left_le {leaf : Leaf} (m : Motor leaf) (d : Direction) (time : Instant) : m.left d time ≤ m.remaining d := by
  unfold left
  split
  · exact Nat.le_refl _
  · exact Nat.sub_le _ _

/-- The settings of overlapping leaves: in each direction both take the same time, and the leading one starts first, with its
reverse pause to spare. -/
def Gate.Aligned (g : Gate) : Prop :=
  ∀ d : Direction, (g.motor d.lead).fullDuration d = (g.motor d.follow).fullDuration d ∧
    (g.motor d.lead).initialDelay d + (g.motor d.lead).reversePause ≤ (g.motor d.follow).initialDelay d

/-- No motor has to wait for more than its reverse pause from now. -/
def Gate.Ready (g : Gate) : Prop := ∀ leaf, (g.motor leaf).readyAt ≤ g.now + (g.motor leaf).reversePause

/-- Leaf B is not further open than leaf A. -/
def Gate.Overlapped (g : Gate) : Prop := g.b.position ≤ g.a.position

/-- Leaf B is not further open than leaf A exactly if the leading leaf has no longer way to go than the following one, whichever the
direction. -/
theorem Gate.overlapped_iff (g : Gate) (d : Direction) :
    g.Overlapped ↔ (g.motor d.lead).remaining d ≤ (g.motor d.follow).remaining d := by
  have ha := g.a.position.isLt
  have hb := g.b.position.isLt
  have hle : g.Overlapped ↔ g.b.position.val ≤ g.a.position.val := Iff.rfl
  rw [hle]
  cases d with
  | opening =>
    show _ ↔ 255 - g.a.position.val ≤ 255 - g.b.position.val
    omega
  | closing => exact Iff.rfl

/-- A movement in order: whenever both leaves are stopped from now on, the leading one has no longer way left; the leading leaf
does not wait unless the following one does, for at least as long; and it had no longer way to go if the following one waits. -/
structure Gate.InOrder (g : Gate) (d : Direction) (phase : Leaf → Phase) : Prop where
  left : ∀ time, g.now ≤ time → (g.motor d.lead).left d time ≤ (g.motor d.follow).left d time
  starts : ∀ s, phase d.lead = .waiting s → ∃ s', phase d.follow = .waiting s' ∧ s ≤ s'
  remaining : ∀ s, phase d.follow = .waiting s → (g.motor d.lead).remaining d ≤ (g.motor d.follow).remaining d

/-- In a pass that comes late enough to start both leaves of a closing: leaf A was just started, leaf B is next. -/
structure Gate.BothDue (g : Gate) (d : Direction) (phase : Leaf → Phase) : Prop where
  direction : d = .closing
  due : ∃ s, phase .b = .waiting s ∧ s ≤ g.now
  started : (g.motor .a).state = .running .closing g.now
  phase : ∃ s, phase .a = .running s
  remaining : (g.motor .b).remaining .closing ≤ (g.motor .a).remaining .closing

/-- The order of the leaves at every point of the task. -/
def Order (g : Gate) : Point → Prop
  | .await (.moving dr _ _) | .top dr | .over dr _ | .starting dr .a _ | .stopping dr .b _ => g.InOrder dr.direction dr.phase
  | .stopping dr .a now | .starting dr .b now =>
    (g.InOrder dr.direction dr.phase ∨ g.BothDue dr.direction dr.phase) ∧ ∀ s, dr.phase .a = .waiting s → now < s
  | _ => g.Overlapped

/-- The order, and what it rests on. -/
structure Ordered (g : Gate) (p : Point) : Prop where
  aligned : g.Aligned
  ready : g.Ready
  order : Order g p

/-! ## What keeps a movement in order -/

theorem Gate.Overlapped.congr {g g' : Gate} (h : g.Overlapped) (hm : ∀ leaf, g'.motor leaf = g.motor leaf) :
    g'.Overlapped := by
  have ha : g'.a = g.a := hm .a
  have hb : g'.b = g.b := hm .b
  unfold Overlapped
  rw [ha, hb]
  exact h

/-- The plan of a movement starts the leading leaf first. -/
theorem Gate.Overlapped.begin {g : Gate} (h : g.Overlapped) (hi : g.Still) (ha : g.Aligned) (hr : g.Ready) (d : Direction) :
    (g.begin d).InOrder d ((g.begin d).initialDrive d).phase := by
  have hn : g.now ≤ (g.begin d).now := Clock.now_le_tick _
  have hrem := (g.overlapped_iff d).mp h
  refine ⟨fun time _ => ?_, fun s hs => ?_, fun s _ => ?_⟩
  · rw [begin_motor, begin_motor, Motor.left_of_idle (hi _), Motor.left_of_idle (hi _)]
    exact hrem
  · rw [phase_initialDrive, begin_motor] at hs
    rw [phase_initialDrive, begin_motor]
    unfold plan at hs ⊢
    split at hs
    · cases hs
    · rename_i r hrun
      obtain rfl := Phase.waiting.inj hs
      have hlead : (g.motor d.lead).remaining d ≠ 0 := fun h0 => by
        rw [(Motor.runTime_eq_none_iff _ _).mpr h0] at hrun
        cases hrun
      split
      · rename_i hnone
        have h0 := (Motor.runTime_eq_none_iff _ _).mp hnone
        omega
      · refine ⟨_, rfl, ?_⟩
        have hready := hr d.lead
        have hdelay := (ha d).2
        refine Nat.max_le.mpr ⟨?_, ?_⟩
        · exact Nat.le_trans (Nat.add_le_add_left (Nat.le_trans (Nat.le_add_right _ _) hdelay) _) (Nat.le_max_left _ _)
        · refine Nat.le_trans hready (Nat.le_trans (Nat.add_le_add hn ?_) (Nat.le_max_left _ _))
          exact Nat.le_trans (Nat.le_add_left _ _) hdelay
  · rw [begin_motor, begin_motor]
    exact hrem

namespace Gate.InOrder

variable {g : Gate} {d : Direction} {phase phase' : Leaf → Phase}

theorem congr {g' : Gate} (h : g.InOrder d phase) (hm : ∀ leaf, g'.motor leaf = g.motor leaf) (hn : g.now ≤ g'.now) :
    g'.InOrder d phase :=
  ⟨fun time ht => by rw [hm, hm]; exact h.left time (Nat.le_trans hn ht), h.starts,
    fun s hs => by rw [hm, hm]; exact h.remaining s hs⟩

/-- What would be left of a leaf that is started now. -/
theorem left_of_started (hs : g.Steady) {leaf : Leaf} (hi : (g.motor leaf).state = .idle) (time : Instant) :
    ((g.startLeaf leaf d).motor leaf).left d time = (g.motor leaf).remaining d - (g.motor leaf).travelled d (time - g.now) := by
  rw [startLeaf_motor_of_steady hs hi]
  rfl

/-- The leading leaf is started. -/
theorem startLead (h : g.InOrder d phase) (hs : g.Steady) (hi : (g.motor d.lead).state = .idle)
    (hn : (g.startLeaf d.lead d).now = g.now) {stopAt : Instant} (hp : phase' d.lead = .running stopAt)
    (ho : phase' d.follow = phase d.follow) : (g.startLeaf d.lead d).InOrder d phase' := by
  have hne : d.follow ≠ d.lead := d.lead_ne_follow.symm
  refine ⟨fun time ht => ?_, fun s hw => ?_, fun s hw => ?_⟩
  · rw [hn] at ht
    rw [left_of_started hs hi, startLeaf_motor_other g hne]
    have hl := h.left time ht
    rw [Motor.left_of_idle hi] at hl
    exact Nat.le_trans (Nat.sub_le _ _) hl
  · cases hp.symm.trans hw
  · rw [startLeaf_motor_other g hne, startLeaf_motor_of_steady hs hi]
    exact h.remaining s (ho.symm.trans hw)

/-- The following leaf is started, and the leading one does not wait: it runs already, or it is at its end. -/
theorem startFollow (h : g.InOrder d phase) (hs : g.Steady) (ha : g.Aligned)
    (hlead : (∃ since, (g.motor d.lead).state = .running d since ∧ since ≤ g.now) ∨ (g.motor d.lead).remaining d = 0)
    (hnw : ∀ s, phase d.lead ≠ .waiting s) {s : Instant} (hw : phase d.follow = .waiting s)
    (hi : (g.motor d.follow).state = .idle) {stopAt : Instant} (hp : phase' d.follow = .running stopAt)
    (ho : phase' d.lead = phase d.lead) : (g.startLeaf d.follow d).InOrder d phase' := by
  have hne : d.lead ≠ d.follow := d.lead_ne_follow
  refine ⟨fun time _ => ?_, fun s hw' => absurd (ho.symm.trans hw') (hnw s), fun s hw' => ?_⟩
  · rw [left_of_started hs hi, startLeaf_motor_other g hne]
    rcases hlead with ⟨since, hrun, hle⟩ | h0
    · rw [Motor.left_of_running hrun]
      have htravel : (g.motor d.follow).travelled d (time - g.now) ≤ (g.motor d.lead).travelled d (time - since) := by
        rw [Motor.travelled_congr (ha d).1]
        exact Motor.travelled_mono _ _ (Nat.sub_le_sub_left hle _)
      exact Nat.le_trans (Nat.sub_le_sub_left htravel _) (Nat.sub_le_sub_right (h.remaining s hw) _)
    · exact Nat.le_trans (Motor.left_le _ _ _) (Nat.le_trans (Nat.le_of_eq h0) (Nat.zero_le _))
  · cases hp.symm.trans hw'

/-- A leaf that has run its time is done. -/
theorem complete (h : g.InOrder d phase) {leaf : Leaf} {stopAt : Instant} (hp : phase leaf = .running stopAt)
    (hzero : ∀ time, g.now ≤ time → (g.motor leaf).left d time = 0) (hidle : ((g.stopLeaf leaf).motor leaf).state = .idle)
    (hend : ((g.stopLeaf leaf).motor leaf).remaining d = 0) (hn : (g.stopLeaf leaf).now = g.now)
    (hp' : phase' leaf = .done) (ho : ∀ leaf', leaf' ≠ leaf → phase' leaf' = phase leaf') :
    (g.stopLeaf leaf).InOrder d phase' := by
  rcases d.eq_lead_or_follow leaf with rfl | rfl
  · have hne : d.follow ≠ d.lead := d.lead_ne_follow.symm
    refine ⟨fun time _ => ?_, fun s hw => ?_, fun s hw => ?_⟩
    · rw [Motor.left_of_idle hidle, hend]
      exact Nat.zero_le _
    · cases hp'.symm.trans hw
    · rw [hend]
      exact Nat.zero_le _
  · have hne : d.lead ≠ d.follow := d.lead_ne_follow
    refine ⟨fun time ht => ?_, fun s hw => ?_, fun s hw => ?_⟩
    · rw [hn] at ht
      rw [stopLeaf_motor_other g hne]
      have hl := h.left time ht
      rw [hzero time ht] at hl
      exact Nat.le_trans hl (Nat.zero_le _)
    · obtain ⟨s', hw', -⟩ := h.starts s ((ho _ hne).symm.trans hw)
      cases hp.symm.trans hw'
    · cases hp'.symm.trans hw

end Gate.InOrder

/-- Both leaves of a closing are started in the same pass. -/
theorem Gate.BothDue.startLead {g : Gate} {d : Direction} {phase phase' : Leaf → Phase} (h : g.BothDue d phase) (hs : g.Steady)
    (ha : g.Aligned) (hi : (g.motor .b).state = .idle) {stopAt : Instant} (hp : phase' .b = .running stopAt)
    (ho : phase' .a = phase .a) : (g.startLeaf .b d).InOrder d phase' := by
  obtain rfl := h.direction
  obtain ⟨s, hphase⟩ := h.phase
  have hne : Leaf.a ≠ Leaf.b := nofun
  refine ⟨fun time _ => ?_, fun s hw => ?_, fun s hw => ?_⟩
  · have hlead : ((g.startLeaf .b .closing).motor .b).left .closing time =
        (g.motor .b).remaining .closing - (g.motor .b).travelled .closing (time - g.now) :=
      InOrder.left_of_started hs hi time
    have hfollow : ((g.startLeaf .b .closing).motor .a).left .closing time =
        (g.motor .a).remaining .closing - (g.motor .a).travelled .closing (time - g.now) := by
      rw [startLeaf_motor_other g hne, Motor.left_of_running h.started]
    have htravel : (g.motor .b).travelled .closing (time - g.now) = (g.motor .a).travelled .closing (time - g.now) :=
      Motor.travelled_congr (ha .closing).1 _
    show ((g.startLeaf .b .closing).motor .b).left .closing time ≤ ((g.startLeaf .b .closing).motor .a).left .closing time
    rw [hlead, hfollow, htravel]
    exact Nat.sub_le_sub_right h.remaining _
  · cases hp.symm.trans hw
  · cases (ho.trans hphase).symm.trans hw

/-! ## The steps -/

/-- A leaf that is stopped has what was left of its way left to go. -/
theorem Gate.stopLeaf_remaining {g : Gate} (hs : g.Steady) {leaf : Leaf} {d : Direction}
    (hm : (g.motor leaf).state = .idle ∨ ∃ since, (g.motor leaf).state = .running d since) :
    ((g.stopLeaf leaf).motor leaf).remaining d = (g.motor leaf).left d g.now := by
  rcases hm with hi | ⟨since, hr⟩
  · rw [stopLeaf_of_idle hi, Motor.left_of_idle hi]
  · rw [Motor.left_of_running hr]
    exact Motor.remaining_of_moveBy _ (by rw [stopLeaf_motor_of_steady hs hr])

theorem PhaseOk.idle_or_running {d : Direction} {p : Phase} {s : MotorState} (h : PhaseOk d p s) :
    s = .idle ∨ ∃ since, s = .running d since := by
  cases p with
  | running t => exact Or.inr h
  | waiting t => exact Or.inl h
  | done => exact Or.inl h

/-- A movement in order that ends leaves leaf B no further open than leaf A. -/
theorem Gate.InOrder.finish {g : Gate} {dr : Drive} (h : g.InOrder dr.direction dr.phase) (hs : g.Steady)
    (hphase : ∀ leaf, PhaseOk dr.direction (dr.phase leaf) (g.motor leaf).state) : (g.endDrive dr).Overlapped := by
  have hsteady : (g.stopLeaf .a).Steady := hs.stopLeaf .a
  have hnow : (g.stopLeaf .a).now = g.now := stopLeaf_now hs .a
  have hne : Leaf.a ≠ Leaf.b := nofun
  have hleft (leaf : Leaf) : ((g.endDrive dr).motor leaf).remaining dr.direction = (g.motor leaf).left dr.direction g.now := by
    rw [endDrive_motor]
    cases leaf with
    | a =>
      rw [stopLeaf_motor_other _ hne]
      exact stopLeaf_remaining hs (hphase .a).idle_or_running
    | b =>
      have hb : (g.stopLeaf .a).motor .b = g.motor .b := stopLeaf_motor_other g hne.symm
      have hstate : ((g.stopLeaf .a).motor .b).state = .idle ∨
          ∃ since, ((g.stopLeaf .a).motor .b).state = .running dr.direction since := by
        rw [hb]
        exact (hphase .b).idle_or_running
      rw [stopLeaf_remaining hsteady hstate, hb, hnow]
  rw [overlapped_iff _ dr.direction, hleft, hleft]
  exact h.left g.now (Nat.le_refl _)

theorem order_afterLeaf_b {g : Gate} {dr : Drive} (h : g.InOrder dr.direction dr.phase) (now : Instant) :
    Order g (.afterLeaf dr now .b) :=
  Point.afterLeaf_b_rule (fun _ => h) (fun _ _ => h)

/-- No motor has to wait for more than its reverse pause after it is stopped. -/
theorem Gate.Ready.stopLeaf {g : Gate} (h : g.Ready) (hs : g.Steady) (leaf : Leaf) : (g.stopLeaf leaf).Ready := by
  have hn : (g.stopLeaf leaf).now = g.now := stopLeaf_now hs leaf
  intro leaf'
  rw [hn]
  by_cases hl : leaf' = leaf
  · subst hl
    cases hst : (g.motor leaf').state with
    | idle =>
      rw [stopLeaf_of_idle hst]
      exact h leaf'
    | running d since =>
      rw [stopLeaf_motor_of_steady hs hst]
      exact Nat.le_refl _
  · rw [stopLeaf_motor_other g hl]
    exact h leaf'

theorem Gate.Ready.congr {g g' : Gate} (h : g.Ready) (hm : ∀ leaf, g'.motor leaf = g.motor leaf) (hn : g.now ≤ g'.now) :
    g'.Ready := by
  intro leaf
  rw [hm]
  exact Nat.le_trans (h leaf) (Nat.add_le_add_right hn _)

/-- No block makes a motor wait for more than its reverse pause. -/
theorem ready_step {g g' : Gate} {p p' : Point} (hs : Step g p g' p') (hsteady : g.Steady) (hshape : Shape g p) (h : g.Ready) :
    g'.Ready := by
  have hboth : ((g.stopLeaf .a).stopLeaf .b).Ready := (h.stopLeaf hsteady .a).stopLeaf (hsteady.stopLeaf .a) .b
  have hn : g.now ≤ g'.now := Nat.le_of_eq (now_step hs hsteady).symm
  cases hs with
  | stop => exact hboth
  | @start dr leaf now at' r hw hle hr =>
    have hi : (g.motor leaf).state = .idle := (hshape.phase leaf).idle (by rw [hw]; nofun)
    intro leaf'
    refine Nat.le_trans ?_ (Nat.add_le_add_right hn _)
    by_cases hl : leaf' = leaf
    · subst hl
      rw [Gate.startLeaf_motor_of_steady hsteady hi]
      exact h leaf'
    · rw [Gate.startLeaf_motor_other g hl]
      exact h leaf'
  | complete => exact h.stopLeaf hsteady _
  | finish => exact hboth.congr (fun leaf => Gate.endDrive_motor _ _ _) (Nat.le_of_eq (congrArg Clock.now (Gate.endDrive_clock _ _)).symm)
  | _ => exact h.congr (by simp) hn

/-- A leaf that does not wait runs already, or is at its end. -/
theorem Gate.LeavesTimed.of_not_waiting {g : Gate} {dr : Drive} (h : g.LeavesTimed dr) {leaf : Leaf}
    (hn : ∀ s, dr.phase leaf ≠ .waiting s) :
    (∃ since, (g.motor leaf).state = .running dr.direction since ∧ since ≤ g.now) ∨ (g.motor leaf).remaining dr.direction = 0 := by
  have hl := h leaf
  cases hp : dr.phase leaf with
  | waiting s => exact absurd hp (hn s)
  | running stopAt =>
    rw [hp] at hl
    obtain ⟨since, r, hs, hle, -, -⟩ := hl
    exact Or.inl ⟨since, hs, hle⟩
  | done =>
    rw [hp] at hl
    exact Or.inr hl

/-- A leaf whose time is over has nothing left to go. -/
theorem Gate.LeavesTimed.left_eq_zero {g : Gate} {dr : Drive} (h : g.LeavesTimed dr)
    (ho : ∀ leaf, ticksPerMilli ≤ (g.motor leaf).endStopOverrun) {leaf : Leaf} {at' : Instant}
    (hp : dr.phase leaf = .running at') (hn : at' ≤ g.now) (time : Instant) (ht : g.now ≤ time) :
    (g.motor leaf).left dr.direction time = 0 := by
  have hl := h leaf
  rw [hp] at hl
  obtain ⟨since, r, hs, -, hr, he⟩ := hl
  rw [he] at hn
  have hrun : r ≤ time - since := Nat.le_sub_of_add_le' (Nat.le_trans hn ht)
  rw [Motor.left_of_running hs]
  exact Nat.sub_eq_zero_of_le ((g.motor leaf).remaining_le_travelled (ho leaf) hr hrun)

/-- Leaf A is started: it leads an opening; in a closing it follows, and if leaf B still waits then it is due as well. -/
theorem order_start_a {g : Gate} {dr : Drive} (hm : g.InMotion dr) (ht : g.LeavesTimed dr) (hs : g.Steady) (ha : g.Aligned)
    (h : g.InOrder dr.direction dr.phase) {at' : Instant} (hw : dr.phase .a = .waiting at') (hle : at' ≤ g.now)
    (hn : (g.startLeaf .a dr.direction).now = g.now) (stopAt : Instant) :
    (g.startLeaf .a dr.direction).InOrder dr.direction (dr.setPhase .a (.running stopAt)).setMoved.phase ∨
      (g.startLeaf .a dr.direction).BothDue dr.direction (dr.setPhase .a (.running stopAt)).setMoved.phase := by
  have hi : (g.motor .a).state = .idle := (hm.phase .a).idle (by rw [hw]; nofun)
  have hne : Leaf.b ≠ Leaf.a := nofun
  obtain ⟨d, pa, pb, moved⟩ := dr
  cases d with
  | opening => exact Or.inl (h.startLead hs hi hn rfl rfl)
  | closing =>
    cases pb with
    | waiting s =>
      obtain ⟨s', hs', hss'⟩ := h.starts s rfl
      obtain rfl : at' = s' := Phase.waiting.inj (hw.symm.trans hs')
      refine Or.inr ⟨rfl, ⟨s, rfl, ?_⟩, ?_, ⟨stopAt, rfl⟩, ?_⟩
      · rw [hn]
        exact Nat.le_trans hss' hle
      · rw [hn, Gate.startLeaf_motor_of_steady hs hi]
      · rw [Gate.startLeaf_motor_other g hne, Gate.startLeaf_motor_of_steady hs hi]
        exact h.remaining at' hw
    | running s =>
      have hnw : ∀ s', Phase.running s ≠ .waiting s' := nofun
      exact Or.inl (h.startFollow hs ha (ht.of_not_waiting hnw) hnw hw hi rfl rfl)
    | done =>
      have hnw : ∀ s', Phase.done ≠ .waiting s' := nofun
      exact Or.inl (h.startFollow hs ha (ht.of_not_waiting hnw) hnw hw hi rfl rfl)

/-- Leaf B is started: it leads a closing; in an opening it follows, and leaf A does not wait any more. -/
theorem order_start_b {g : Gate} {dr : Drive} (hm : g.InMotion dr) (ht : g.LeavesTimed dr) (hs : g.Steady) (ha : g.Aligned)
    (h : g.InOrder dr.direction dr.phase ∨ g.BothDue dr.direction dr.phase) (hnotDue : ∀ s, dr.phase .a = .waiting s → g.now < s)
    {at' : Instant} (hw : dr.phase .b = .waiting at') (hle : at' ≤ g.now) (hn : (g.startLeaf .b dr.direction).now = g.now)
    (stopAt : Instant) :
    (g.startLeaf .b dr.direction).InOrder dr.direction (dr.setPhase .b (.running stopAt)).setMoved.phase := by
  have hi : (g.motor .b).state = .idle := (hm.phase .b).idle (by rw [hw]; nofun)
  obtain ⟨d, pa, pb, moved⟩ := dr
  rcases h with h | h
  · cases d with
    | opening =>
      have hnw : ∀ s, pa ≠ .waiting s := by
        rintro s rfl
        obtain ⟨s', hs', hss'⟩ := h.starts s rfl
        obtain rfl : at' = s' := Phase.waiting.inj (hw.symm.trans hs')
        exact absurd (hnotDue s rfl) (Nat.not_lt_of_le (Nat.le_trans hss' hle))
      exact h.startFollow hs ha (ht.of_not_waiting hnw) hnw hw hi rfl rfl
    | closing => exact h.startLead hs hi hn rfl rfl
  · exact h.startLead hs ha hi rfl rfl

/-- Every block keeps the leaves in order. -/
theorem ordered_step : Preserved (fun g p => (Shape g p ∧ Timed g p) ∧ Ordered g p) := by
  intro g p g' p' hs h
  obtain ⟨⟨hshape, htimed⟩, ha, hr, ho⟩ := h
  have hsteady := htimed.steady
  have hnow := now_step hs hsteady
  have hclock : g.now ≤ g'.now := Nat.le_of_eq hnow.symm
  refine ⟨timed_step hs ⟨hshape, htimed⟩, fun d => ?_, ready_step hs hsteady hshape hr, ?_⟩
  · have hlead := settings_step hs d.lead
    have hfollow := settings_step hs d.follow
    rw [hlead.fullDuration, hlead.initialDelay, hlead.reversePause, hfollow.fullDuration, hfollow.initialDelay]
    exact ha d
  · cases hs with
    | takePending hp => exact ho.congr (by simp)
    | @takeCommand w c hw hc =>
      cases w with
      | settled s => exact Gate.Overlapped.congr ho (by simp)
      | idle => exact Gate.Overlapped.congr ho (by simp)
      | moving dr dl y => exact hw.elim
    | @takeReset w hw hc hrs =>
      cases w with
      | settled s => exact Gate.Overlapped.congr ho (by simp)
      | idle => exact Gate.Overlapped.congr ho (by simp)
      | moving dr dl y => exact hw.elim
    | @rest w hw hc hrs =>
      cases w with
      | settled s => exact ho
      | idle => exact ho
      | moving dr dl y => exact hw.elim
    | refuse hc hb => exact ho
    | @begin c d hc hb => exact Gate.Overlapped.begin ho hshape.1.still ha hr d
    | stop hc =>
      rw [hshape.1.still.stopBoth]
      exact ho
    | block hb => exact ho
    | look hb => exact Gate.InOrder.congr ho (by simp) hclock
    | @notDue dr leaf now hw =>
      cases leaf with
      | a => exact ⟨Or.inl ho, hw⟩
      | b =>
        refine ho.1.resolve_right fun hdue => ?_
        obtain ⟨s, hs, hle⟩ := hdue.due
        have hlt := hw s hs
        rw [htimed.leaves.2] at hlt
        exact absurd hle (Nat.not_le_of_lt hlt)
    | @start dr leaf now at' r hw hn hrun =>
      obtain ⟨hl, rfl⟩ := htimed.leaves
      cases leaf with
      | a => exact ⟨order_start_a hshape hl hsteady ha ho hw hn hnow _, nofun⟩
      | b => exact order_start_b hshape hl hsteady ha ho.1 ho.2 hw hn hnow _
    | @skip dr leaf now at' hw hn hrun =>
      have hl := htimed.leaves.1 leaf
      rw [hw] at hl
      exact absurd ((Motor.runTime_eq_none_iff _ _).mp hrun) hl
    | @keep dr leaf now hw =>
      cases leaf with
      | a => exact ho
      | b => exact order_afterLeaf_b ho now
    | @complete dr leaf now at' hw hn =>
      obtain ⟨hl, rfl⟩ := htimed.leaves
      have hzero := hl.left_eq_zero htimed.overrun hw hn
      have hidle : ((g.stopLeaf leaf).motor leaf).state = .idle := by
        rw [Gate.stopLeaf_motor_self]
        exact Motor.stop_state _ _
      have hend : ((g.stopLeaf leaf).motor leaf).remaining dr.direction = 0 :=
        (Gate.stopLeaf_remaining hsteady (hshape.phase leaf).idle_or_running).trans (hzero g.now (Nat.le_refl _))
      have hcomplete (h : g.InOrder dr.direction dr.phase) :
          (g.stopLeaf leaf).InOrder dr.direction (dr.setPhase leaf .done).phase :=
        h.complete hw hzero hidle hend hnow (Drive.phase_setPhase_self _ _ _)
          (fun leaf' hne => Drive.phase_setPhase_other _ _ hne)
      cases leaf with
      | a =>
        refine ⟨Or.inl (hcomplete (ho.1.resolve_right fun hdue => ?_)), nofun⟩
        -- leaf A was started in this very pass, so its time cannot be over
        have hleft := hl .a
        rw [hw, hdue.direction] at hleft
        obtain ⟨since, r, hstate, -, hrun, he⟩ := hleft
        obtain rfl : since = g.now := by
          have heq := hstate.symm.trans hdue.started
          cases heq
          rfl
        have hpos : 0 < r := Nat.lt_of_lt_of_le (by decide) (Nat.le_trans (htimed.overrun .a) (Motor.overrun_le hrun))
        rw [he] at hn
        exact absurd hn (Nat.not_le_of_lt (Nat.lt_add_of_pos_right hpos))
      | b => exact order_afterLeaf_b (hcomplete ho) _
    | readClock => exact Gate.InOrder.congr ho (by simp) hclock
    | timer hd => exact ho
    | sameCommand hc => exact Gate.InOrder.congr ho (by simp) hclock
    | interrupt hc hne => exact Gate.InOrder.congr ho (by simp) hclock
    | barrier hc hb => exact Gate.InOrder.congr ho (by simp) hclock
    | announce hc hb hrs => exact Gate.InOrder.congr ho (by simp) hclock
    | suspend hc hb hrs => exact ho
    | finish => exact Gate.InOrder.finish ho hsteady hshape.1.phase
    | settle => exact Gate.Overlapped.congr ho (by simp)

/-! ## Calls and sleeps -/

/-- What leaves the motors alone while the task sleeps keeps the order. -/
theorem Ordered.await_congr {g g' : Gate} {w : Await} (h : Ordered g (.await w)) (hm : ∀ leaf, g'.motor leaf = g.motor leaf)
    (hn : g.now ≤ g'.now) : Ordered g' (.await w) := by
  refine ⟨fun d => ?_, h.ready.congr hm hn, ?_⟩
  · rw [hm, hm]
    exact h.aligned d
  · have ho := h.order
    cases w with
    | moving dr dl y => exact Gate.InOrder.congr ho hm hn
    | _ => exact Gate.Overlapped.congr ho hm

theorem ordered_call (t : Task) (c : Call) (h : t.Holds Ordered) : (t.call c).Holds Ordered :=
  Ordered.await_congr h (by simp [Task.call]) (Nat.le_refl _)

theorem ordered_wait (t : Task) (sleep : Duration) (lag : Nat → Duration) (h : t.Holds Ordered) :
    (t.wait sleep lag).Holds Ordered :=
  Ordered.await_congr h (by simp [Task.wait]) (Nat.le_add_right _ _)

end GateLink
