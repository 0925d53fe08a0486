import GateLink.Lemmas.Trace
import GateLink.Lemmas.Poll
import GateLink.Lemmas.Log

/-!
# Safety gating and the relays, over whole runs

A relay is energized only while nothing blocks its direction, and a movement that becomes blocked is over at the next poll
(`safety_gating`). The relays exclude each other after every single write, and the published state says what they do
(`relays_consistent`). Both hold of every run: any calls before and after the gate is built, polls at any times, and clocks
that move on within a poll.
-/

namespace GateLink

open Machine

namespace SafetyAux

/-- No block unblocks a direction: the gate only ever clears the bypass. -/
theorem blocked_step {d : Direction} {g g' : Gate} {p p' : Point} (hs : Step g p g' p')
    (h : g.controls.blocked d ≠ none) : g'.controls.blocked d ≠ none := by
  cases hs with
  | @start dr leaf now at' r hp hn hr => simpa using h
  | complete hp hn => simpa using h
  | stop hc => simpa using h
  | @finish dr result =>
    rw [Gate.endDrive_controls]
    cases dr.moved with
    | false => exact h
    | true => exact Controls.blocked_bypass_false h
  | _ => exact h

/-- A task that is silent, or between two steps, has no relay energized in a direction that is blocked. -/
theorem low_of_blocked {t : Task} (h : t.Holds Safe) (ht : t.Settled ∨ t.Silent) {d : Direction}
    (hb : t.gate.controls.blocked d ≠ none) (leaf : Leaf) : t.gate.board.levels ⟨leaf, d⟩ = false := by
  obtain ⟨g, w⟩ := t
  obtain ⟨hshape, hguard, -⟩ := h
  cases w with
  | settled s => exact hshape.1.wired.low hshape.1.still _
  | idle => exact hshape.1.wired.low hshape.1.still _
  | moving dr dl y =>
    obtain ⟨hc, hbc, -⟩ : g.controls.command = none ∧ _ := ht.resolve_left (fun ⟨_, hs⟩ => by cases hs)
    by_contra hhigh
    rw [Bool.not_eq_false] at hhigh
    obtain rfl : d = dr.direction := Gate.InMotion.of_high hshape hhigh
    exact (hguard hb).elim (fun h => h hc) (fun h => h hbc)

/-- Between two polls, a relay that is energized in a blocked direction is one of a movement, and the task has been woken. -/
theorem signal_of_blocked {t : Task} (h : t.Holds Safe) {leaf : Leaf} {d : Direction}
    (hp : t.gate.board.levels ⟨leaf, d⟩ = true) (hb : t.gate.controls.blocked d ≠ none) :
    t.gate.controls.command ≠ none ∨ t.gate.controls.barrierChanged ≠ none := by
  obtain ⟨g, w⟩ := t
  obtain ⟨hshape, hguard, -⟩ := h
  cases w with
  | settled s =>
    rw [hshape.1.wired.low hshape.1.still] at hp
    cases hp
  | idle =>
    rw [hshape.1.wired.low hshape.1.still] at hp
    cases hp
  | moving dr dl y =>
    obtain rfl : d = dr.direction := Gate.InMotion.of_high hshape hp
    exact hguard hb

/-- Calls leave the relays and the trace alone. -/
theorem calls_board (calls : List Call) (t : Task) :
    (run Task.next t (calls.map .call)).gate.board.levels = t.gate.board.levels ∧
      (run Task.next t (calls.map .call)).gate.board.trace = t.gate.board.trace := by
  induction calls generalizing t with
  | nil => exact ⟨rfl, rfl⟩
  | cons c calls ih => exact ih (t.call c)

/-- One moment of a run, with the energized relays of a blocked direction: the poll that comes next, after any more calls that
leave the direction blocked, switches each of them off and ends with none of them energized. -/
theorem poll_releases {t : Task} (h : t.Holds Safe) (hl : t.gate.board.Logged) {d : Direction}
    (hb : t.gate.controls.blocked d ≠ none) (sleep : Duration) (lag : Nat → Duration) (more : Nat) :
    let t' := (t.wait sleep lag).pollSteps more
    (∀ leaf, t'.gate.board.levels ⟨leaf, d⟩ = false) ∧
      ∃ fresh, t'.gate.board.trace = fresh ++ t.gate.board.trace ∧
        ∀ leaf, t.gate.board.levels ⟨leaf, d⟩ = true → ∃ e ∈ fresh, e.SwitchesOff ⟨leaf, d⟩ := by
  intro t'
  have hw : (t.wait sleep lag).Holds Safe := safe_wait t sleep lag h
  have hsafe : t'.Holds Safe := safe_step.pollSteps hw more
  have hblocked : t'.gate.controls.blocked d ≠ none :=
    Preserved.pollSteps (I := fun g _ => g.controls.blocked d ≠ none) (fun _ _ _ _ hs => blocked_step hs)
      (t := t.wait sleep lag) hb more
  have hlow := low_of_blocked hsafe ((t.wait sleep lag).pollSteps_ends more) hblocked
  have hlog : t'.gate.board.Logged :=
    (Preserved.pollSteps (I := fun g p => Shape g p ∧ g.board.Logged)
      (fun _ _ _ _ hs h => ⟨shape_step hs h.1, logged_step hs h.1 h.2⟩) (t := t.wait sleep lag) ⟨hw.1, hl⟩ more).2
  obtain ⟨fresh, hf⟩ := (t.wait sleep lag).pollSteps_suffix more
  have hf' : t'.gate.board.trace = fresh ++ t.gate.board.trace := hf.symm
  refine ⟨hlow, fresh, hf', fun leaf hleaf => ?_⟩
  unfold Board.Logged at hlog
  rw [hf'] at hlog
  exact Logged.switched_off hl hlog hleaf (hlow leaf)

end SafetyAux

open SafetyAux

/-- Safety gating. In every run: (a) a relay is switched on only while nothing blocks its direction; (b) when a poll is over,
nothing blocks the direction of an energized relay; (c) when a direction is blocked between two polls while one of its relays
is energized, a signal has been left that the gate task waits for, and if the direction is still blocked at the next poll,
that poll switches every such relay off and ends with none of them energized. -/
theorem safety_gating (early : List Call) (a b : MotorSettings) (locked : Bool) (events : List Event) :
    let t := after early a b locked events
    (∀ e ∈ t.gate.board.trace, ∀ p, e.SwitchesOn p → e.controls.blocked p.direction = none) ∧
    (∀ sleep lag more p, ((t.wait sleep lag).pollSteps more).gate.board.levels p = true →
      ((t.wait sleep lag).pollSteps more).gate.controls.blocked p.direction = none) ∧
    (∀ d, (∃ leaf, t.gate.board.levels ⟨leaf, d⟩ = true) → t.gate.controls.blocked d ≠ none →
      (t.gate.controls.command ≠ none ∨ t.gate.controls.barrierChanged ≠ none) ∧
      ∀ (calls : List Call) sleep lag more,
        let t₁ := run Task.next t (calls.map .call)
        let t₂ := (t₁.wait sleep lag).pollSteps more
        t₁.gate.controls.blocked d ≠ none →
          (∀ leaf, t₂.gate.board.levels ⟨leaf, d⟩ = false) ∧
          ∃ fresh, t₂.gate.board.trace = fresh ++ t.gate.board.trace ∧
            ∀ leaf, t.gate.board.levels ⟨leaf, d⟩ = true → ∃ e ∈ fresh, e.SwitchesOff ⟨leaf, d⟩) := by
  intro t
  have hsafe : t.Holds Safe := safe_after early a b locked events
  refine ⟨?_, ?_, ?_⟩
  · intro e he p hp
    obtain ⟨d, hd⟩ := hsafe.2.2 e he
    obtain ⟨rfl, hb⟩ := hd.2 p hp.1
    exact hb
  · intro sleep lag more p hp
    by_contra hb
    have hsafe' := safe_step.pollSteps (safe_wait t sleep lag hsafe) more
    have hlow := low_of_blocked hsafe' ((t.wait sleep lag).pollSteps_ends more) hb p.leaf
    rw [hp] at hlow
    cases hlow
  · intro d hhigh hb
    refine ⟨?_, ?_⟩
    · obtain ⟨leaf, hleaf⟩ := hhigh
      exact signal_of_blocked hsafe hleaf hb
    · intro calls sleep lag more t₁ t₂ hb₁
      have hrun : t₁ = after early a b locked (events ++ calls.map .call) := (run_append _ _ _ _).symm
      obtain ⟨hl, ht⟩ := calls_board calls t
      have hpoll := poll_releases (hrun ▸ safe_after early a b locked _) (hrun ▸ logged_after early a b locked _) hb₁ sleep
        lag more
      rw [hl, ht] at hpoll
      exact hpoll

/-! ## The relays and the published state -/

/-- What `cover_state` reports of a movement. -/
def Direction.coverState : Direction → CoverState
  | .opening => .opening
  | .closing => .closing

/-- The task is not within a movement. -/
def Task.NotMoving (t : Task) : Prop := ∀ dr dl y, t.await ≠ .moving dr dl y

namespace SafetyAux

theorem coverState_of_dir {c : Controls} {d : Direction} (h : c.currentDirection = d.dir) : c.coverState = d.coverState := by
  unfold Controls.coverState
  cases d <;> rw [h] <;> rfl

/-- Between two movements, the gate is reported closed exactly when both leaves are, and open otherwise. -/
theorem coverState_of_atRest {g : Gate} (h : g.AtRest) :
    g.controls.coverState = if g.a.position = 0 ∧ g.b.position = 0 then .closed else .open := by
  have hpos : g.controls.position = .posClosed ↔ g.a.position = 0 ∧ g.b.position = 0 := by
    rw [h.position, Snapshot.classify_eq_posClosed_iff]
    rfl
  unfold Controls.coverState
  rw [h.direction]
  simp only [hpos]

/-- A task that is not within a movement has its gate at rest. -/
theorem atRest_of_shape {t : Task} (h : t.Holds Shape) (hn : t.NotMoving) : t.gate.AtRest := by
  obtain ⟨g, w⟩ := t
  cases w with
  | settled s => exact h.1
  | idle => exact h.1
  | moving dr dl y => exact absurd rfl (hn dr dl y)

end SafetyAux

/-- Relay exclusivity and the reported state. In every run, after every write to a pin: no motor has both of its relays
energized, and no open relay of a leaf is energized together with a close relay of the other. And whenever the task is
suspended: an energized relay is of the direction that `cover_state` reports, and when no movement is in flight every relay is
released and `cover_state` is closed exactly when both leaves are at 0, and open otherwise. -/
theorem relays_consistent (early : List Call) (a b : MotorSettings) (locked : Bool) (events : List Event) :
    let t := after early a b locked events
    (∀ e ∈ t.gate.board.trace,
      (∀ leaf, ¬(e.after ⟨leaf, .opening⟩ = true ∧ e.after ⟨leaf, .closing⟩ = true)) ∧
        ∀ leaf leaf', leaf ≠ leaf' → ¬(e.after ⟨leaf, .opening⟩ = true ∧ e.after ⟨leaf', .closing⟩ = true)) ∧
    (∀ p, t.gate.board.levels p = true → t.gate.controls.coverState = p.direction.coverState) ∧
    (t.NotMoving →
      (∀ p, t.gate.board.levels p = false) ∧
        (t.gate.controls.coverState = .closed ↔ t.gate.a.position = 0 ∧ t.gate.b.position = 0) ∧
        (¬(t.gate.a.position = 0 ∧ t.gate.b.position = 0) → t.gate.controls.coverState = .open)) := by
  intro t
  have hsafe : t.Holds Safe := safe_after early a b locked events
  refine ⟨fun e he => ?_, fun p hp => ?_, fun hn => ?_⟩
  · obtain ⟨d, hd⟩ := hsafe.2.2 e he
    have hex (leaf leaf' : Leaf) : ¬(e.after ⟨leaf, .opening⟩ = true ∧ e.after ⟨leaf', .closing⟩ = true) := by
      rintro ⟨ho, hc⟩
      cases (hd.after _ ho).trans (hd.after _ hc).symm
    exact ⟨fun leaf => hex leaf leaf, fun leaf leaf' _ => hex leaf leaf'⟩
  · by_cases hn : t.NotMoving
    · have hrest := atRest_of_shape hsafe.1 hn
      rw [hrest.wired.low hrest.still] at hp
      cases hp
    · unfold Task.NotMoving at hn
      push Not at hn
      obtain ⟨dr, dl, y, ha⟩ := hn
      have hm : t.gate.InMotion dr := by
        have hshape := hsafe.1
        rwa [ha] at hshape
      rw [hm.of_high hp]
      exact coverState_of_dir hm.direction
  · have hrest := atRest_of_shape hsafe.1 hn
    rw [coverState_of_atRest hrest]
    refine ⟨hrest.wired.low hrest.still, ?_, fun h => if_neg h⟩
    split_ifs with hz <;> simp [hz]

end GateLink
