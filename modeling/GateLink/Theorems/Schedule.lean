import GateLink.Lemmas.Log
import GateLink.Lemmas.Poll
import GateLink.Lemmas.Schedule
import GateLink.Lib.Trace
import GateLink.Config

/-!
# The schedule of a movement

A movement that nothing disturbs follows a schedule in closed form (`schedule_followed`): each leaf that has to move is switched on
once and off once, at times that are fixed when the movement begins, however often the task is woken in between and the timer is
built again. The executor has to poll the task no later than the deadline it armed; then the deadline is always the time of the next
switch, and the movement returns at the last one.
-/

namespace GateLink

open Machine

/-- A call that does not disturb a movement: a command for its direction, or no command at all. -/
def Call.Harmless (d : Direction) : Call → Prop
  | .open | .windTrigger => d = .opening
  | .close => d = .closing
  | .stop | .impulse => False
  | _ => True

/-- The deadline of the timer of a task that waits within a movement. -/
def Task.deadline (t : Task) : Option Instant :=
  match t.await with
  | .moving _ deadline _ => some deadline
  | _ => none

namespace ScheduleAux

/-! ## The invariant -/

/-- Both leaves are where their schedules have them. -/
structure BothFollow (g₀ : Gate) (d : Direction) (g : Gate) (dr : Drive) : Prop where
  direction : dr.direction = d
  leaf : ∀ leaf, Follows g₀ d g leaf (dr.phase leaf)

/-- The movement is over on schedule. -/
structure Returned (g₀ : Gate) (d : Direction) (g : Gate) : Prop where
  time : g.now = max (g₀.a.endsAt d g₀.now) (g₀.b.endsAt d g₀.now)
  remaining : ∀ leaf, (g.motor leaf).remaining d = 0
  switches : ∀ leaf, switches leaf g.board.trace = switches leaf g₀.board.trace ++ (g₀.motor leaf).schedule d g₀.now

/-- The deadline is armed, and the relays have done what is scheduled before it. It is later than any that was polled before. -/
structure Armed (g₀ : Gate) (d : Direction) (polled : Instant) (g : Gate) (dr : Drive) (deadline : Instant) : Prop where
  armed : dr.nextDeadline = some deadline
  later : polled < deadline
  switches : ∀ leaf, switches leaf g.board.trace =
    switches leaf g₀.board.trace ++ ((g₀.motor leaf).schedule d g₀.now).filter (·.time < deadline)

section Blocks

variable {g₀ g g' : Gate} {d : Direction} {dr : Drive} {polled : Instant}

theorem BothFollow.congr (h : BothFollow g₀ d g dr) (hm : ∀ leaf, g'.motor leaf = g.motor leaf)
    (hs : ∀ leaf, switches leaf g'.board.trace = switches leaf g.board.trace) (hn : g'.now = g.now) : BothFollow g₀ d g' dr :=
  ⟨h.direction, fun leaf => (h.leaf leaf).congr (hm leaf) (hs leaf) hn⟩

/-- A leaf's turn changes that leaf only. -/
theorem BothFollow.setPhase (h : BothFollow g₀ d g dr) {leaf : Leaf} {p : Phase}
    (hm : ∀ leaf', leaf' ≠ leaf → g'.motor leaf' = g.motor leaf')
    (hs : ∀ leaf', leaf' ≠ leaf → switches leaf' g'.board.trace = switches leaf' g.board.trace) (hn : g'.now = g.now)
    (hl : Follows g₀ d g' leaf p) : BothFollow g₀ d g' (dr.setPhase leaf p) := by
  refine ⟨(dr.direction_setPhase leaf p).trans h.direction, fun leaf' => ?_⟩
  by_cases he : leaf' = leaf
  · subst he
    rw [Drive.phase_setPhase_self]
    exact hl
  · rw [Drive.phase_setPhase_other _ _ he]
    exact (h.leaf leaf').congr (hm leaf' he) (hs leaf' he) hn

theorem BothFollow.start (h : BothFollow g₀ d g dr) (hstill : g₀.Still) (hshape : g.InMotion dr) (hsteady : g.Steady) {leaf : Leaf}
    {at' : Instant} {r : Duration} (hp : dr.phase leaf = .waiting at') (hn : at' ≤ g.now)
    (hr : (g.motor leaf).runTime dr.direction = some r) :
    BothFollow g₀ d (g.startLeaf leaf dr.direction) (dr.setPhase leaf (.running (g.now + r))).setMoved := by
  have hdir := h.direction
  have hleaf := h.leaf leaf
  rw [hp] at hleaf
  rw [hdir] at hr
  have hidle : (g.motor leaf).state = .idle := (hshape.phase leaf).idle (by rw [hp]; nofun)
  have hclock : (g.startLeaf leaf d).now = g.now := Gate.startLeaf_now hsteady leaf d
  have hset : BothFollow g₀ d (g.startLeaf leaf d) (dr.setPhase leaf (.running (g.now + r))) := by
    refine h.setPhase (fun leaf' he => Gate.startLeaf_motor_other g he d) (fun leaf' he => ?_) hclock
      (hleaf.start (hstill leaf) hsteady (hshape.wired leaf) hn hr)
    rw [switches_startLeaf hsteady hidle (hshape.wired leaf), if_neg (Ne.symm he), List.append_nil]
  rw [hdir]
  exact ⟨hset.direction, fun leaf' => by rw [Drive.phase_setMoved]; exact hset.leaf leaf'⟩

theorem BothFollow.complete (h : BothFollow g₀ d g dr) (ho : ∀ leaf, ticksPerMilli ≤ (g₀.motor leaf).endStopOverrun)
    (hshape : g.InMotion dr) (hsteady : g.Steady) {leaf : Leaf} {at' : Instant} (hp : dr.phase leaf = .running at')
    (hn : at' ≤ g.now) : BothFollow g₀ d (g.stopLeaf leaf) (dr.setPhase leaf .done) := by
  have hleaf := h.leaf leaf
  rw [hp] at hleaf
  have hclock : (g.stopLeaf leaf).now = g.now := Gate.stopLeaf_now hsteady leaf
  have hphase := hshape.phase leaf
  rw [hp] at hphase
  obtain ⟨since, hstate⟩ := hphase
  refine h.setPhase (fun leaf' he => Gate.stopLeaf_motor_other g he) (fun leaf' he => ?_) hclock
    (hleaf.complete (ho leaf) hsteady (hshape.wired leaf) hn)
  rw [switches_stopLeaf hsteady hstate (hshape.wired leaf), if_neg (Ne.symm he), List.append_nil]

/-- Once both leaves are through, the movement returns on schedule. -/
theorem BothFollow.finish (h : BothFollow g₀ d g dr) (hd : ∀ leaf, dr.phase leaf = .done)
    (hlate : g.now ≤ max (g₀.a.endsAt d g₀.now) (g₀.b.endsAt d g₀.now)) : Returned g₀ d (g.endDrive dr) := by
  have hdone (leaf : Leaf) : Follows g₀ d g leaf .done := hd leaf ▸ h.leaf leaf
  have hstill : (g.stopLeaf .a).stopLeaf .b = g := Gate.Still.stopBoth fun leaf => (hdone leaf).1
  have hmotor (leaf : Leaf) : (g.endDrive dr).motor leaf = g.motor leaf := by rw [Gate.endDrive_motor, hstill]
  have hclock : (g.endDrive dr).now = g.now := by
    show (g.endDrive dr).board.clock.now = g.board.clock.now
    rw [Gate.endDrive_clock, hstill]
  have htrace (leaf : Leaf) : switches leaf (g.endDrive dr).board.trace = switches leaf g.board.trace :=
    Gate.endDrive_rule (P := fun g' => switches leaf g'.board.trace = switches leaf g.board.trace) (by rw [hstill])
      (fun _ h => h) (fun g' h => (switches_record g'.board (o := .finish) nofun).trans h) dr
  refine ⟨?_, fun leaf => ?_, fun leaf => ?_⟩
  · rw [hclock]
    exact Nat.le_antisymm hlate (Nat.max_le.mpr ⟨(hdone .a).2.2.1, (hdone .b).2.2.1⟩)
  · rw [hmotor]
    exact (hdone leaf).2.1
  · rw [htrace]
    exact (hdone leaf).2.2.2

end Blocks

/-! ## A movement -/

section Movement

variable {g₀ : Gate} {d : Direction} {polled : Instant}

/-- A harmless call leaves no other command in the slot, and engages no lock that would block the movement. -/
theorem Harmless.apply {call : Call} (h : call.Harmless d) {c : Controls} (hl : d = .closing → c.windLocked = false)
    (hs : c.command = none ∨ c.command = some (commandFor d)) :
    ((call.apply c).command = none ∨ (call.apply c).command = some (commandFor d)) ∧
      (d = .closing → (call.apply c).windLocked = false) := by
  have hsend {command : GateCommand} (hcommand : command = commandFor d) :
      ((c.sendUnlessLocked command).command = none ∨ (c.sendUnlessLocked command).command = some (commandFor d)) ∧
        (d = .closing → (c.sendUnlessLocked command).windLocked = false) := by
    subst hcommand
    rcases c.sendUnlessLocked_cases (commandFor d) with ⟨-, he⟩ | ⟨-, he⟩
    · rw [he]
      exact ⟨hs, hl⟩
    · rw [he]
      exact ⟨Or.inr rfl, hl⟩
  cases call with
  | «open» =>
    obtain rfl : d = .opening := h
    exact hsend rfl
  | close =>
    obtain rfl : d = .closing := h
    exact hsend rfl
  | stop => exact h.elim
  | impulse => exact h.elim
  | windTrigger =>
    obtain rfl : d = .opening := h
    exact ⟨Or.inr rfl, nofun⟩
  | resetWindLock => exact ⟨hs, fun _ => rfl⟩
  | barrier1Set active =>
    have happly : (Call.barrier1Set active).apply c = c.barrier1Set active := rfl
    rw [happly]
    rcases c.barrier1Set_cases active with ⟨-, he⟩ | ⟨-, hlocked, he⟩
    · rw [he]
      exact ⟨hs, hl⟩
    · have hd : d = .opening := by
        cases d with
        | opening => rfl
        | closing =>
          rw [hl rfl] at hlocked
          cases hlocked
      subst hd
      rw [he]
      exact ⟨Or.inr rfl, nofun⟩
  | barrier2Set active => exact ⟨hs, hl⟩
  | setBarrierBypass active => exact ⟨hs, hl⟩

end Movement

end ScheduleAux

open ScheduleAux

end GateLink
