import GateLink.Lemmas.Switches
import Mathlib.Data.List.Induction

/-!
# A motor is what its relays have made of it

With one reading of the clock per poll, everything a motor knows follows from what it was at boot and from the switches of its relays
since: the motor of a leaf is the motor at boot with the relay trace of the leaf replayed on it (`Replays`). So the position at the time
a relay was switched on is a matter of the relay trace alone.
-/

namespace GateLink

open Machine

namespace Motor

variable {leaf : Leaf}

/-- What a switch of a relay makes of the motor: it runs since then, or it has run until then and is credited with the distance. -/
def switch (m : Motor leaf) (s : Switch) : Motor leaf :=
  match s.level, m.state with
  | true, _ => { m with state := .running s.direction s.time }
  | false, .running d since =>
    { m with state := .idle, stoppedAt := some s.time, position := m.moveBy d (m.travelled d (s.time - since)) }
  | false, .idle => m

/-- The motor once its relays have done this, the oldest first. -/
def replay (m : Motor leaf) (done : List Switch) : Motor leaf := done.foldl switch m

@[simp] theorem replay_nil (m : Motor leaf) : m.replay [] = m := rfl

@[simp] theorem replay_append (m : Motor leaf) (done : List Switch) (s : Switch) :
    m.replay (done ++ [s]) = (m.replay done).switch s := by
  simp [replay]

theorem switch_on (m : Motor leaf) (t : Instant) (d : Direction) :
    m.switch ⟨t, d, true⟩ = { m with state := .running d t } := rfl

theorem switch_off {m : Motor leaf} {d : Direction} {since : Instant} (h : m.state = .running d since) (t : Instant)
    (d' : Direction) :
    m.switch ⟨t, d', false⟩ =
      { m with state := .idle, stoppedAt := some t, position := m.moveBy d (m.travelled d (t - since)) } := by
  simp [switch, h]

theorem switch_settings (m : Motor leaf) (s : Switch) :
    (m.switch s).timing = m.timing ∧ (m.switch s).endStopOverrun = m.endStopOverrun := by
  unfold switch
  split <;> exact ⟨rfl, rfl⟩

/-- The timing and the overrun of a motor stay what they were. -/
theorem replay_settings (m : Motor leaf) (done : List Switch) :
    (m.replay done).timing = m.timing ∧ (m.replay done).endStopOverrun = m.endStopOverrun := by
  induction done using List.reverseRecOn with
  | nil => exact ⟨rfl, rfl⟩
  | append_singleton done s ih =>
    rw [replay_append]
    have hs := (m.replay done).switch_settings s
    exact ⟨hs.1.trans ih.1, hs.2.trans ih.2⟩

/-- A motor that runs was switched on last. -/
theorem replay_running {m : Motor leaf} (hm : m.state = .idle) {done : List Switch} {d : Direction} {since : Instant}
    (h : (m.replay done).state = .running d since) : ∃ before, done = before ++ [⟨since, d, true⟩] := by
  induction done using List.reverseRecOn with
  | nil =>
    rw [replay_nil, hm] at h
    cases h
  | append_singleton before s _ =>
    obtain ⟨t, d', level⟩ := s
    rw [replay_append] at h
    cases level with
    | true =>
      rw [switch_on] at h
      obtain ⟨rfl, rfl⟩ := MotorState.running.inj h
      exact ⟨before, rfl⟩
    | false =>
      cases hs : (m.replay before).state with
      | idle =>
        simp only [switch, hs] at h
        cases h
      | running d'' since' =>
        rw [switch_off hs] at h
        cases h

/-- A run is no longer than the full run and the overrun. -/
theorem runTime_le {m : Motor leaf} {d : Direction} {r : Duration} (hr : m.runTime d = some r) :
    r ≤ m.fullDuration d + m.endStopOverrun := by
  unfold runTime at hr
  split at hr
  · cases hr
  · obtain rfl := Option.some.inj hr
    refine Nat.add_le_add_right ?_ _
    have hmul : asMillis (m.fullDuration d) * m.remaining d ≤ asMillis (m.fullDuration d) * 255 :=
      Nat.mul_le_mul_left _ (m.remaining_le d)
    have hdiv : asMillis (m.fullDuration d) * m.remaining d / 255 ≤ asMillis (m.fullDuration d) :=
      Nat.div_le_of_le_mul (by rwa [Nat.mul_comm 255])
    exact Nat.le_trans (Nat.mul_le_mul_right ticksPerMilli hdiv) (Nat.div_mul_le_self _ _)

end Motor

/-- Every motor is what its relays have made of it. -/
def Replays (m₀ : (leaf : Leaf) → Motor leaf) (g : Gate) : Prop :=
  ∀ leaf, g.motor leaf = (m₀ leaf).replay (switches leaf g.board.trace)

section Replays

variable {m₀ : (leaf : Leaf) → Motor leaf} {g g' : Gate}

theorem Replays.congr (h : Replays m₀ g) (hm : ∀ leaf, g'.motor leaf = g.motor leaf)
    (hs : ∀ leaf, switches leaf g'.board.trace = switches leaf g.board.trace) : Replays m₀ g' :=
  fun leaf => by rw [hm, hs]; exact h leaf

theorem Replays.record (h : Replays m₀ g) {o : Output} (ho : ∀ p l, o ≠ .write p l) : Replays m₀ (g.record o) :=
  h.congr (by simp) fun _ => switches_record _ ho

theorem Replays.startLeaf (h : Replays m₀ g) (hs : g.Steady) {leaf : Leaf} (hi : (g.motor leaf).state = .idle)
    (hw : g.Wired) (d : Direction) : Replays m₀ (g.startLeaf leaf d) := by
  intro leaf'
  rw [switches_startLeaf hs hi (hw leaf)]
  by_cases hl : leaf' = leaf
  · subst hl
    rw [if_pos rfl, Motor.replay_append, ← h leaf', Gate.startLeaf_motor_of_steady hs hi, Motor.switch_on]
  · rw [if_neg (Ne.symm hl), List.append_nil, Gate.startLeaf_motor_other g hl]
    exact h leaf'

theorem Replays.stopLeaf (h : Replays m₀ g) (hs : g.Steady) (hw : g.Wired) (leaf : Leaf) : Replays m₀ (g.stopLeaf leaf) := by
  cases hr : (g.motor leaf).state with
  | idle =>
    rw [Gate.stopLeaf_of_idle hr]
    exact h
  | running d since =>
    intro leaf'
    rw [switches_stopLeaf hs hr (hw leaf)]
    by_cases hl : leaf' = leaf
    · subst hl
      rw [if_pos rfl, Motor.replay_append, ← h leaf', Gate.stopLeaf_motor_of_steady hs hr, Motor.switch_off hr]
    · rw [if_neg (Ne.symm hl), List.append_nil, Gate.stopLeaf_motor_other g hl]
      exact h leaf'

/-- No block makes anything of a motor but by its relays. -/
theorem replays_step {p p' : Point} (hs : Step g p g' p') (hshape : Shape g p) (hsteady : g.Steady) (h : Replays m₀ g) :
    Replays m₀ g' := by
  cases hs with
  | @begin c d hc hb =>
    have hset : Replays m₀ (g.modify (·.setDirection d)) := h.congr (by simp) fun _ => rfl
    exact ((hset.record (o := .start d) nofun).record (o := .notify) nofun).congr (by simp) fun _ => rfl
  | stop hc =>
    rw [hshape.1.still.stopBoth]
    exact h
  | @start dr leaf now at' r hp hn hr =>
    exact h.startLeaf hsteady ((hshape.phase leaf).idle (by rw [hp]; nofun)) hshape.wired _
  | complete hp hn => exact h.stopLeaf hsteady hshape.wired _
  | announce hc hb hr =>
    have htaken : Replays m₀ g.takeWindLockReset := h.congr (by simp) fun _ => rfl
    exact htaken.record (o := .notify) nofun
  | @finish dr result =>
    have hboth : Replays m₀ ((g.stopLeaf .a).stopLeaf .b) :=
      (h.stopLeaf hsteady hshape.1.wired .a).stopLeaf (hsteady.stopLeaf .a) (hshape.1.wired.stopLeaf .a) .b
    exact Gate.endDrive_rule (P := Replays m₀) hboth (fun _ h => h.congr (by simp) fun _ => rfl) (fun _ h => h.record nofun) dr
  | settle => exact h.congr (by simp) fun _ => rfl
  | refuse | block | notDue | skip | keep | timer | suspend | rest => exact h
  | takePending | takeCommand | takeReset | look | readClock | sameCommand | interrupt | barrier =>
    exact h.congr (by simp) fun _ => rfl

theorem replays_boot (early : List Call) (a b : MotorSettings) (locked : Bool) :
    Replays (fun leaf => (boot early a b locked).gate.motor leaf) (boot early a b locked).gate := by
  intro leaf
  cases leaf <;> rfl

end Replays

end GateLink
