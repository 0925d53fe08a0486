import GateLink.Lemmas.Gate

/-!
# When a pass over the leaves ends the movement

What the loop over the leaves does to the phase of each leaf does not depend on the other one (`passLeaf_frame`), and it leaves no
deadline exactly if neither leaf had anything left to do (`pass_ends_iff`).
-/

namespace GateLink

/-- A leaf has nothing left to do at a moment, with the time it has to run: it is done, its run is over, or its wait is over and it
does not have to run. -/
def Phase.Over (runTime : Option Duration) (now : Instant) : Phase → Prop
  | .waiting startAt => startAt ≤ now ∧ runTime.getD 0 = 0
  | .running stopAt => stopAt ≤ now
  | .done => True

instance (runTime : Option Duration) (now : Instant) (p : Phase) : Decidable (p.Over runTime now) :=
  match p with
  | .waiting _ => inferInstanceAs (Decidable (_ ∧ _))
  | .running _ => inferInstanceAs (Decidable (_ ≤ _))
  | .done => inferInstanceAs (Decidable True)

theorem nextDeadline_eq_none_iff (dr : Drive) : dr.nextDeadline = none ↔ ∀ leaf, dr.phase leaf = .done := by
  rw [Leaf.forall_iff, Drive.nextDeadline, Drive.phase, Drive.phase]
  cases dr.aPhase <;> cases dr.bPhase <;> simp [Phase.earliest]

/-- A leaf is done after its turn exactly if it had nothing left to do. -/
theorem passLeaf_done_iff (g : Gate) (dr : Drive) (leaf : Leaf) (now : Instant) :
    (g.passLeaf dr leaf now).2.phase leaf = .done ↔ (dr.phase leaf).Over ((g.motor leaf).runTime dr.direction) now := by
  cases hp : dr.phase leaf with
  | done => simp [Gate.passLeaf, Gate.startIfDue, Gate.stopIfDue, hp, Phase.Over]
  | running stopAt =>
    by_cases hn : stopAt ≤ now <;> simp [Gate.passLeaf, Gate.startIfDue, Gate.stopIfDue, hp, Phase.Over, hn]
  | waiting startAt =>
    by_cases hn : startAt ≤ now
    · cases hr : (g.motor leaf).runTime dr.direction with
      | none => simp [Gate.passLeaf, Gate.startIfDue, Gate.stopIfDue, hp, hn, hr, Phase.Over]
      | some r =>
        by_cases h0 : r = 0
        · simp [Gate.passLeaf, Gate.startIfDue, Gate.stopIfDue, hp, hn, hr, h0, Phase.Over]
        · have hlater : ¬now + r ≤ now := Nat.not_le_of_lt (Nat.lt_add_of_pos_right (Nat.pos_of_ne_zero h0))
          simp [Gate.passLeaf, Gate.startIfDue, Gate.stopIfDue, hp, hn, hr, h0, hlater, Phase.Over]
    · simp [Gate.passLeaf, Gate.startIfDue, Gate.stopIfDue, hp, hn, Phase.Over]

/-- A leaf's turn leaves the other leaf, and the direction, alone. -/
theorem passLeaf_frame (g : Gate) (dr : Drive) {leaf leaf' : Leaf} (hl : leaf' ≠ leaf) (now : Instant) :
    (g.passLeaf dr leaf now).2.phase leaf' = dr.phase leaf' ∧ (g.passLeaf dr leaf now).1.motor leaf' = g.motor leaf' ∧
      (g.passLeaf dr leaf now).2.direction = dr.direction := by
  have hstop (g' : Gate) (dr' : Drive) :
      (g'.stopIfDue dr' leaf now).2.phase leaf' = dr'.phase leaf' ∧
        (g'.stopIfDue dr' leaf now).1.motor leaf' = g'.motor leaf' ∧
        (g'.stopIfDue dr' leaf now).2.direction = dr'.direction := by
    unfold Gate.stopIfDue
    split
    · split
      · exact ⟨Drive.phase_setPhase_other _ _ hl, Gate.stopLeaf_motor_other _ hl, Drive.direction_setPhase _ _ _⟩
      · exact ⟨rfl, rfl, rfl⟩
    · exact ⟨rfl, rfl, rfl⟩
  have hstart :
      (g.startIfDue dr leaf now).2.phase leaf' = dr.phase leaf' ∧ (g.startIfDue dr leaf now).1.motor leaf' = g.motor leaf' ∧
        (g.startIfDue dr leaf now).2.direction = dr.direction := by
    unfold Gate.startIfDue
    split
    · split
      · split
        · exact ⟨Drive.phase_setPhase_other _ _ hl, Gate.startLeaf_motor_other _ hl _, Drive.direction_setPhase _ _ _⟩
        · exact ⟨Drive.phase_setPhase_other _ _ hl, rfl, Drive.direction_setPhase _ _ _⟩
      · exact ⟨rfl, rfl, rfl⟩
    · exact ⟨rfl, rfl, rfl⟩
  have h := hstop (g.startIfDue dr leaf now).1 (g.startIfDue dr leaf now).2
  exact ⟨h.1.trans hstart.1, h.2.1.trans hstart.2.1, h.2.2.trans hstart.2.2⟩

/-- A pass keeps the direction. -/
theorem pass_direction (g : Gate) (dr : Drive) : (g.pass dr).2.direction = dr.direction := by
  have hab : Leaf.b ≠ Leaf.a := nofun
  have ha := passLeaf_frame g.tick dr hab g.tick.now
  have hb := passLeaf_frame (g.tick.passLeaf dr .a g.tick.now).1 (g.tick.passLeaf dr .a g.tick.now).2 hab.symm g.tick.now
  exact hb.2.2.trans ha.2.2

/-- A pass ends the movement exactly if neither leaf had anything left to do. -/
theorem pass_ends_iff (g : Gate) (dr : Drive) :
    (g.pass dr).2.nextDeadline = none ↔
      ∀ leaf, (dr.phase leaf).Over ((g.motor leaf).runTime dr.direction) g.tick.now := by
  have hba : Leaf.b ≠ Leaf.a := nofun
  have ha := passLeaf_frame g.tick dr hba g.tick.now
  have hb := passLeaf_frame (g.tick.passLeaf dr .a g.tick.now).1 (g.tick.passLeaf dr .a g.tick.now).2 hba.symm g.tick.now
  rw [nextDeadline_eq_none_iff, Leaf.forall_iff, Leaf.forall_iff]
  refine and_congr ?_ ?_
  · rw [Gate.pass, hb.1]
    exact passLeaf_done_iff g.tick dr .a g.tick.now
  · rw [Gate.pass, passLeaf_done_iff, ha.1, ha.2.1, ha.2.2]
    exact Iff.rfl

end GateLink
