import GateLink.Lemmas.Pass
import GateLink.Lemmas.Switches

/-!
# The schedule of a leaf

When a leaf is switched in a movement that nothing disturbs, in closed form (`Motor.schedule`), and what it means that a leaf is where
its schedule has it (`Follows`): what a start, a stop and the time that passes make of it.
-/

namespace GateLink

/-- When a leaf is energized in a movement that is planned at a time. -/
def Motor.startsAt {leaf : Leaf} (m : Motor leaf) (d : Direction) (start : Instant) : Instant :=
  max (start + m.initialDelay d) m.readyAt

/-- The schedule of a leaf in a movement that is planned at a time: nothing if the leaf is at its end already. -/
def Motor.schedule {leaf : Leaf} (m : Motor leaf) (d : Direction) (start : Instant) : List Switch :=
  match m.runTime d with
  | none => []
  | some r => [⟨m.startsAt d start, d, true⟩, ⟨m.startsAt d start + r, d, false⟩]

/-- When a leaf is through with a movement that is planned at a time: at its last switch, or at once. -/
def Motor.endsAt {leaf : Leaf} (m : Motor leaf) (d : Direction) (start : Instant) : Instant :=
  match m.runTime d with
  | none => start
  | some r => m.startsAt d start + r

/-- When the leaf has something to do next, if it has. -/
def Phase.deadline : Phase → Option Instant
  | .waiting s | .running s => some s
  | .done => none

/-- The deadline that `drive` arms is the earliest of its leaves'. -/
theorem nextDeadline_eq_some {dr : Drive} {deadline : Instant} (h : dr.nextDeadline = some deadline) :
    (∃ leaf, (dr.phase leaf).deadline = some deadline) ∧ ∀ leaf s, (dr.phase leaf).deadline = some s → deadline ≤ s := by
  have hfold (next : Option Instant) (p : Phase) :
      p.earliest next = p.deadline.elim next fun s => some (next.elim s (min · s)) := by
    cases p <;> rfl
  unfold Drive.nextDeadline at h
  rw [hfold, hfold] at h
  change dr.bPhase.deadline.elim _ _ = _ at h
  have ha : (dr.phase .a).deadline = dr.aPhase.deadline := rfl
  have hb : (dr.phase .b).deadline = dr.bPhase.deadline := rfl
  rw [Leaf.forall_iff, ha, hb]
  cases hpa : dr.aPhase.deadline with
  | none =>
    cases hpb : dr.bPhase.deadline with
    | none => simp [hpa, hpb] at h
    | some t =>
      obtain rfl : t = deadline := by simpa [hpa, hpb] using h
      exact ⟨⟨.b, hb.trans hpb⟩, nofun, fun s hs => Nat.le_of_eq (Option.some.inj hs)⟩
  | some s =>
    cases hpb : dr.bPhase.deadline with
    | none =>
      obtain rfl : s = deadline := by simpa [hpa, hpb] using h
      exact ⟨⟨.a, ha.trans hpa⟩, fun s hs => Nat.le_of_eq (Option.some.inj hs), nofun⟩
    | some t =>
      obtain rfl : min s t = deadline := by simpa [hpa, hpb] using h
      refine ⟨?_, fun x hx => ?_, fun x hx => ?_⟩
      · rcases Nat.le_total s t with hle | hle
        · exact ⟨.a, by rw [ha, hpa, Nat.min_eq_left hle]⟩
        · exact ⟨.b, by rw [hb, hpb, Nat.min_eq_right hle]⟩
      · exact Option.some.inj hx ▸ Nat.min_le_left s t
      · exact Option.some.inj hx ▸ Nat.min_le_right s t

section Leaf

variable {leaf : Leaf} {m : Motor leaf} {d : Direction} {start : Instant}

theorem Motor.schedule_of_none (h : m.runTime d = none) : m.schedule d start = [] := by
  unfold schedule
  rw [h]

theorem Motor.schedule_of_some {r : Duration} (h : m.runTime d = some r) :
    m.schedule d start = [⟨m.startsAt d start, d, true⟩, ⟨m.startsAt d start + r, d, false⟩] := by
  unfold schedule
  rw [h]

theorem Motor.endsAt_of_none (h : m.runTime d = none) : m.endsAt d start = start := by
  unfold endsAt
  rw [h]

theorem Motor.endsAt_of_some {r : Duration} (h : m.runTime d = some r) : m.endsAt d start = m.startsAt d start + r := by
  unfold endsAt
  rw [h]

end Leaf

/-- A leaf is where its schedule has it: it waits for its start, runs since then, or is through, and this is what its relays have
done so far. -/
def Follows (g₀ : Gate) (d : Direction) (g : Gate) (leaf : Leaf) : Phase → Prop
  | .waiting s =>
    (g₀.motor leaf).runTime d ≠ none ∧ g.motor leaf = g₀.motor leaf ∧ s = (g₀.motor leaf).startsAt d g₀.now ∧ g.now ≤ s ∧
      switches leaf g.board.trace = switches leaf g₀.board.trace
  | .running s =>
    ∃ r, (g₀.motor leaf).runTime d = some r ∧
      g.motor leaf = { g₀.motor leaf with state := .running d ((g₀.motor leaf).startsAt d g₀.now) } ∧
      s = (g₀.motor leaf).startsAt d g₀.now + r ∧ (g₀.motor leaf).startsAt d g₀.now ≤ g.now ∧ g.now ≤ s ∧
      switches leaf g.board.trace = switches leaf g₀.board.trace ++ [⟨(g₀.motor leaf).startsAt d g₀.now, d, true⟩]
  | .done =>
    (g.motor leaf).state = .idle ∧ (g.motor leaf).remaining d = 0 ∧ (g₀.motor leaf).endsAt d g₀.now ≤ g.now ∧
      switches leaf g.board.trace = switches leaf g₀.board.trace ++ (g₀.motor leaf).schedule d g₀.now

namespace Follows

variable {g₀ g g' : Gate} {d : Direction} {leaf : Leaf} {p : Phase}

/-- A leaf that is left alone stays where its schedule has it until it has something to do. -/
theorem later (h : Follows g₀ d g leaf p) (hm : g'.motor leaf = g.motor leaf)
    (hs : switches leaf g'.board.trace = switches leaf g.board.trace) (hn : g.now ≤ g'.now)
    (hd : ∀ s, p.deadline = some s → g'.now ≤ s) : Follows g₀ d g' leaf p := by
  cases p with
  | waiting s =>
    obtain ⟨hr, hm', he, -, hs'⟩ := h
    exact ⟨hr, hm.trans hm', he, hd s rfl, hs.trans hs'⟩
  | running s =>
    obtain ⟨r, hr, hm', he, hle, -, hs'⟩ := h
    exact ⟨r, hr, hm.trans hm', he, Nat.le_trans hle hn, hd s rfl, hs.trans hs'⟩
  | done =>
    obtain ⟨hi, h0, hle, hs'⟩ := h
    exact ⟨by rw [hm]; exact hi, by rw [hm]; exact h0, Nat.le_trans hle hn, hs.trans hs'⟩

/-- The time the leaf has something to do next is not past. -/
theorem now_le (h : Follows g₀ d g leaf p) {s : Instant} (hp : p.deadline = some s) : g.now ≤ s := by
  cases p with
  | waiting t =>
    obtain rfl := Option.some.inj hp
    exact h.2.2.2.1
  | running t =>
    obtain rfl := Option.some.inj hp
    obtain ⟨r, -, -, -, -, hle, -⟩ := h
    exact hle
  | done => cases hp

theorem congr (h : Follows g₀ d g leaf p) (hm : g'.motor leaf = g.motor leaf)
    (hs : switches leaf g'.board.trace = switches leaf g.board.trace) (hn : g'.now = g.now) : Follows g₀ d g' leaf p :=
  h.later hm hs (Nat.le_of_eq hn.symm) fun _ hp => hn ▸ h.now_le hp

/-- At the start of the movement the leaf has its plan. -/
theorem plan (hi : (g₀.motor leaf).state = .idle) (hm : g.motor leaf = g₀.motor leaf) (hn : g.now = g₀.now)
    (hs : switches leaf g.board.trace = switches leaf g₀.board.trace) :
    Follows g₀ d g leaf (plan (g.motor leaf) d g.now) := by
  rw [hm, hn]
  unfold GateLink.plan
  split
  · rename_i hr
    refine ⟨by rw [hm]; exact hi, ?_, ?_, ?_⟩
    · rw [hm]
      exact (Motor.runTime_eq_none_iff _ _).mp hr
    · rw [Motor.endsAt_of_none hr, hn]
    · rw [hs, Motor.schedule_of_none hr, List.append_nil]
  · rename_i r hr
    refine ⟨by rw [hr]; nofun, hm, rfl, ?_, hs⟩
    rw [hn]
    exact Nat.le_trans (Nat.le_add_right _ _) (Nat.le_max_left _ _)

/-- A leaf that is due is started on schedule. -/
theorem start (hi : (g₀.motor leaf).state = .idle) {s : Instant} (h : Follows g₀ d g leaf (.waiting s)) (hsteady : g.Steady)
    (hw : (g.motor leaf).Wired g.board.levels) (hs : s ≤ g.now) {r : Duration} (hr : (g.motor leaf).runTime d = some r) :
    Follows g₀ d (g.startLeaf leaf d) leaf (.running (g.now + r)) := by
  obtain ⟨-, hm, rfl, hle, hsw⟩ := h
  have hidle : (g.motor leaf).state = .idle := by
    rw [hm]
    exact hi
  have hnow : (g.startLeaf leaf d).now = g.now := Gate.startLeaf_now hsteady leaf d
  have hstart : g.now = (g₀.motor leaf).startsAt d g₀.now := Nat.le_antisymm hle hs
  refine ⟨r, by rw [← hm]; exact hr, ?_, by rw [hstart], ?_, ?_, ?_⟩
  · rw [Gate.startLeaf_motor_of_steady hsteady hidle, hm, hstart]
  · rw [hnow]
    exact hs
  · rw [hnow]
    exact Nat.le_add_right _ _
  · rw [switches_startLeaf hsteady hidle hw, if_pos rfl, hsw, hstart]

/-- A leaf that has run its time is stopped on schedule, at its end. -/
theorem complete (ho : ticksPerMilli ≤ (g₀.motor leaf).endStopOverrun) {s : Instant} (h : Follows g₀ d g leaf (.running s))
    (hsteady : g.Steady) (hw : (g.motor leaf).Wired g.board.levels) (hs : s ≤ g.now) :
    Follows g₀ d (g.stopLeaf leaf) leaf .done := by
  obtain ⟨r, hr, hm, rfl, hstart, hle, hsw⟩ := h
  have hstate : (g.motor leaf).state = .running d ((g₀.motor leaf).startsAt d g₀.now) := by rw [hm]
  have hnow : (g.stopLeaf leaf).now = g.now := Gate.stopLeaf_now hsteady leaf
  have hend : g.now = (g₀.motor leaf).startsAt d g₀.now + r := Nat.le_antisymm hle hs
  refine ⟨?_, ?_, ?_, ?_⟩
  · rw [Gate.stopLeaf_motor_of_steady hsteady hstate]
  · have hrun : (g.motor leaf).runTime d = some r := by
      rw [hm]
      exact hr
    have hover : ticksPerMilli ≤ (g.motor leaf).endStopOverrun := by
      rw [hm]
      exact ho
    exact Gate.stopLeaf_remaining_of_run hsteady hover hstate hrun hs
  · rw [hnow, Motor.endsAt_of_some hr]
    exact hs
  · rw [switches_stopLeaf hsteady hstate hw, if_pos rfl, hsw, hend, Motor.schedule_of_some hr, List.append_assoc]
    rfl

end Follows

end GateLink
