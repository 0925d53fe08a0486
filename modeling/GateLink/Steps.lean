import GateLink.System

/-!
# Small steps

What the gate task can do, one basic block at a time. A `Point` is a place in the code of `step` and `drive`: one of the awaits,
or a place between two blocks. `Step g p g' p'` says that the gate `g` at `p` does one block and is then the gate `g'` at `p'`;
each constructor carries the test that leads there. Every turn of the task is a run of such steps
(`Task.advance_invariant`), so what every step preserves holds of every turn, every poll and every run: an invariant of the
gate is proved here once for each block and nowhere else.
-/

namespace GateLink

open Machine

/-- A place in the code of the gate task. -/
inductive Point where
  | await (a : Await)
  /-- In `step`, with the command it is to execute. -/
  | execute (command : GateCommand)
  /-- At the top of the loop of `drive`. -/
  | top (dr : Drive)
  /-- In the loop over the leaves, before a leaf is started if it is due. -/
  | starting (dr : Drive) (leaf : Leaf) (now : Instant)
  /-- In the loop over the leaves, before a leaf is stopped if it is due. -/
  | stopping (dr : Drive) (leaf : Leaf) (now : Instant)
  /-- After the loop of `drive`, which was left with a result. -/
  | over (dr : Drive) (result : Option GateCommand)
  /-- At the end of `step`, before it settles. -/
  | ended (result : Option GateCommand)

/-- The task is about to poll the `select` of `step`: it waits there, or begins a step and nothing is pending. -/
def Await.Listens (g : Gate) : Await → Prop
  | .settled _ => g.pending = none
  | .idle => True
  | .moving _ _ _ => False

/-- The place after a leaf's turn in the loop over the leaves. -/
def Point.afterLeaf (dr : Drive) (now : Instant) : Leaf → Point
  | .a => .starting dr .b now
  | .b =>
    match dr.nextDeadline with
    | none => .over dr none
    | some deadline => .await (.moving dr deadline false)

/-- What follows the second leaf's turn: the movement is over, or waits for its next deadline. -/
theorem Point.afterLeaf_b_rule {P : Point → Prop} {dr : Drive} {now : Instant} (hover : dr.nextDeadline = none → P (.over dr none))
    (harm : ∀ deadline, dr.nextDeadline = some deadline → P (.await (.moving dr deadline false))) :
    P (.afterLeaf dr now .b) := by
  unfold Point.afterLeaf
  cases hd : dr.nextDeadline with
  | none => exact hover hd
  | some deadline => exact harm deadline hd

/-- What follows a leaf's turn. -/
theorem Point.afterLeaf_rule {P : Point → Prop} {dr : Drive} {now : Instant} (hnext : P (.starting dr .b now))
    (hover : dr.nextDeadline = none → P (.over dr none))
    (harm : ∀ deadline, dr.nextDeadline = some deadline → P (.await (.moving dr deadline false))) (leaf : Leaf) :
    P (.afterLeaf dr now leaf) := by
  cases leaf with
  | a => exact hnext
  | b => exact afterLeaf_b_rule hover harm

/-- One basic block of the gate task. -/
inductive Step : Gate → Point → Gate → Point → Prop
  /-- A step begins with the pending command. -/
  | takePending {g : Gate} {s : Snapshot} {c : GateCommand} (h : g.pending = some c) :
      Step g (.await (.settled s)) { g with pending := none } (.execute c)
  /-- At rest, the command slot wins. -/
  | takeCommand {g : Gate} {w : Await} {c : GateCommand} (hw : w.Listens g)
      (h : g.controls.command = some c) : Step g (.await w) g.takeCommand (.execute c)
  /-- At rest, a wind lock reset settles right away. -/
  | takeReset {g : Gate} {w : Await} (hw : w.Listens g) (hc : g.controls.command = none)
      (h : g.controls.windLockReset = some ()) : Step g (.await w) g.takeWindLockReset (.ended none)
  /-- At rest, nothing is signalled. -/
  | rest {g : Gate} {w : Await} (hw : w.Listens g) (hc : g.controls.command = none)
      (hr : g.controls.windLockReset = none) : Step g (.await w) g (.await .idle)
  /-- A command is refused: its direction is blocked. -/
  | refuse {g : Gate} {c : GateCommand} {d : Direction} (hc : g.controls.resolveImpulse c = commandFor d)
      (hb : g.controls.blocked d ≠ none) : Step g (.execute c) g (.ended none)
  /-- A movement starts. -/
  | begin {g : Gate} {c : GateCommand} {d : Direction} (hc : g.controls.resolveImpulse c = commandFor d)
      (hb : g.controls.blocked d = none) : Step g (.execute c) (g.begin d) (.top ((g.begin d).initialDrive d))
  /-- A STOP at rest. -/
  | stop {g : Gate} {c : GateCommand} (hc : ∀ d, g.controls.resolveImpulse c ≠ commandFor d) :
      Step g (.execute c) ((g.stopLeaf .a).stopLeaf .b) (.ended none)
  /-- The movement is blocked. -/
  | block {g : Gate} {dr : Drive} (hb : g.controls.blocked dr.direction ≠ none) : Step g (.top dr) g (.over dr none)
  /-- The movement goes on: the clock is read for the loop over the leaves. -/
  | look {g : Gate} {dr : Drive} (hb : g.controls.blocked dr.direction = none) :
      Step g (.top dr) g.tick (.starting dr .a g.tick.now)
  /-- A leaf is not due to start. -/
  | notDue {g : Gate} {dr : Drive} {leaf : Leaf} {now : Instant} (h : ∀ at', dr.phase leaf = .waiting at' → now < at') :
      Step g (.starting dr leaf now) g (.stopping dr leaf now)
  /-- A leaf is started. -/
  | start {g : Gate} {dr : Drive} {leaf : Leaf} {now at' : Instant} {r : Duration} (h : dr.phase leaf = .waiting at')
      (hn : at' ≤ now) (hr : (g.motor leaf).runTime dr.direction = some r) :
      Step g (.starting dr leaf now) (g.startLeaf leaf dr.direction)
        (.stopping (dr.setPhase leaf (.running (now + r))).setMoved leaf now)
  /-- A leaf is due to start, but has reached its end. -/
  | skip {g : Gate} {dr : Drive} {leaf : Leaf} {now at' : Instant} (h : dr.phase leaf = .waiting at')
      (hn : at' ≤ now) (hr : (g.motor leaf).runTime dr.direction = none) :
      Step g (.starting dr leaf now) g (.stopping (dr.setPhase leaf .done) leaf now)
  /-- A leaf is not due to stop. -/
  | keep {g : Gate} {dr : Drive} {leaf : Leaf} {now : Instant} (h : ∀ at', dr.phase leaf = .running at' → now < at') :
      Step g (.stopping dr leaf now) g (.afterLeaf dr now leaf)
  /-- A leaf has run its time. -/
  | complete {g : Gate} {dr : Drive} {leaf : Leaf} {now at' : Instant} (h : dr.phase leaf = .running at')
      (hn : at' ≤ now) :
      Step g (.stopping dr leaf now) (g.stopLeaf leaf) (.afterLeaf (dr.setPhase leaf .done) now leaf)
  /-- The timer reads the clock. -/
  | readClock {g : Gate} {dr : Drive} {dl : Instant} :
      Step g (.await (.moving dr dl true)) g.tick (.await (.moving dr dl true))
  /-- The timer is due. -/
  | timer {g : Gate} {dr : Drive} {dl : Instant} (h : dl ≤ g.now) : Step g (.await (.moving dr dl true)) g (.top dr)
  /-- A command for the same direction changes nothing. -/
  | sameCommand {g : Gate} {dr : Drive} {dl : Instant} {y : Bool}
      (h : g.controls.command = some (commandFor dr.direction)) :
      Step g (.await (.moving dr dl y)) g.takeCommand (.top dr)
  /-- Any other command ends the movement. -/
  | interrupt {g : Gate} {dr : Drive} {dl : Instant} {y : Bool} {c : GateCommand} (h : g.controls.command = some c)
      (hc : c ≠ commandFor dr.direction) : Step g (.await (.moving dr dl y)) g.takeCommand (.over dr (handedBack c))
  /-- A light barrier changed. -/
  | barrier {g : Gate} {dr : Drive} {dl : Instant} {y : Bool} (hc : g.controls.command = none)
      (h : g.controls.barrierChanged = some ()) : Step g (.await (.moving dr dl y)) g.takeBarrierChanged (.top dr)
  /-- The wind lock was reset: the movement goes on, and the cleared lock is announced. -/
  | announce {g : Gate} {dr : Drive} {dl : Instant} {y : Bool} (hc : g.controls.command = none)
      (hb : g.controls.barrierChanged = none) (h : g.controls.windLockReset = some ()) :
      Step g (.await (.moving dr dl y)) (g.takeWindLockReset.record .notify) (.top dr)
  /-- The movement goes on and nothing is signalled. -/
  | suspend {g : Gate} {dr : Drive} {dl : Instant} {y : Bool} (hc : g.controls.command = none)
      (hb : g.controls.barrierChanged = none) (hr : g.controls.windLockReset = none) :
      Step g (.await (.moving dr dl y)) g (.await (.moving dr dl true))
  /-- `drive` returns. -/
  | finish {g : Gate} {dr : Drive} {result : Option GateCommand} :
      Step g (.over dr result) (g.endDrive dr) (.ended result)
  /-- `step` settles and returns. -/
  | settle {g : Gate} {result : Option GateCommand} :
      Step g (.ended result) (g.endStep result).gate (.await (g.endStep result).await)

/-- What holds of the task at the point it stands at. -/
def Task.Holds (I : Gate → Point → Prop) (t : Task) : Prop := I t.gate (.await t.await)

/-- The point lies between two awaits. -/
def Point.Inner (p : Point) : Prop := ∀ w, p ≠ .await w

/-- `I` is preserved by every block that starts between two awaits. -/
def PreservedWithin (I : Gate → Point → Prop) : Prop := ∀ ⦃g p g' p'⦄, I g p → p.Inner → Step g p g' p' → I g' p'

/-- The point lies between two awaits, or the task waits within a movement. -/
def Point.Busy (p : Point) : Prop := p.Inner ∨ ∃ dr dl y, p = .await (.moving dr dl y)

/-- `I` is preserved by every block that starts between two awaits or within a movement. -/
def PreservedBusy (I : Gate → Point → Prop) : Prop := ∀ ⦃g p g' p'⦄, I g p → p.Busy → Step g p g' p' → I g' p'

/-- `I` is preserved by every block. -/
def Preserved (I : Gate → Point → Prop) : Prop := ∀ ⦃g p g' p'⦄, Step g p g' p' → I g p → I g' p'

/-- A busy task that waits does so within a movement. -/
theorem Point.Busy.moving {w : Await} (h : (Point.await w).Busy) : ∃ dr dl y, w = .moving dr dl y := by
  rcases h with h | ⟨dr, dl, y, h⟩
  · exact absurd rfl (h w)
  · exact ⟨dr, dl, y, by simpa using h⟩

theorem PreservedBusy.within {I : Gate → Point → Prop} (hI : PreservedBusy I) : PreservedWithin I :=
  fun _ _ _ _ h hp hs => hI h (Or.inl hp) hs

theorem Preserved.busy {I : Gate → Point → Prop} (hI : Preserved I) : PreservedBusy I := fun _ _ _ _ h _ hs => hI hs h

theorem Preserved.within {I : Gate → Point → Prop} (hI : Preserved I) : PreservedWithin I := hI.busy.within

theorem Task.Holds.proceed {I : Gate → Point → Prop} {t : Task} (h : t.Holds I) : t.proceed.state.Holds I := by
  unfold Task.proceed
  split <;> exact h

/-! ## From one await to the next -/

namespace PreservedWithin

variable {I : Gate → Point → Prop} (hI : PreservedWithin I)

include hI

theorem endStep {g : Gate} {result : Option GateCommand} (h : I g (.ended result)) : (g.endStep result).Holds I :=
  hI h nofun .settle

theorem endDrive {g : Gate} {dr : Drive} {result : Option GateCommand} (h : I g (.over dr result)) :
    ((g.endDrive dr).endStep result).Holds I :=
  hI.endStep (hI h nofun .finish)

theorem startIfDue {g : Gate} {dr : Drive} {leaf : Leaf} {now : Instant} (h : I g (.starting dr leaf now)) :
    I (g.startIfDue dr leaf now).1 (.stopping (g.startIfDue dr leaf now).2 leaf now) := by
  unfold Gate.startIfDue
  split
  · rename_i at' hp
    split
    · rename_i hn
      split
      · rename_i r hr
        exact hI h nofun (.start hp hn hr)
      · rename_i hr
        exact hI h nofun (.skip hp hn hr)
    · rename_i hn
      refine hI h nofun (.notDue fun x hx => ?_)
      rw [hp] at hx
      cases hx
      exact Nat.lt_of_not_le hn
  · rename_i hp
    exact hI h nofun (.notDue fun x hx => absurd hx (hp x))

theorem stopIfDue {g : Gate} {dr : Drive} {leaf : Leaf} {now : Instant} (h : I g (.stopping dr leaf now)) :
    I (g.stopIfDue dr leaf now).1 (.afterLeaf (g.stopIfDue dr leaf now).2 now leaf) := by
  unfold Gate.stopIfDue
  split
  · rename_i at' hp
    split
    · rename_i hn
      exact hI h nofun (.complete hp hn)
    · rename_i hn
      refine hI h nofun (.keep fun x hx => ?_)
      rw [hp] at hx
      cases hx
      exact Nat.lt_of_not_le hn
  · rename_i hp
    exact hI h nofun (.keep fun x hx => absurd hx (hp x))

theorem passLeaf {g : Gate} {dr : Drive} {leaf : Leaf} {now : Instant} (h : I g (.starting dr leaf now)) :
    I (g.passLeaf dr leaf now).1 (.afterLeaf (g.passLeaf dr leaf now).2 now leaf) :=
  hI.stopIfDue (hI.startIfDue h)

theorem driveLoop {g : Gate} {dr : Drive} (h : I g (.top dr)) : (g.driveLoop dr).Holds I := by
  unfold Gate.driveLoop
  split
  · rename_i reason hb
    exact hI.endDrive (hI h nofun (.block (by rw [hb]; simp)))
  · rename_i hb
    have hpass := hI.passLeaf (hI.passLeaf (hI h nofun (.look hb)))
    simp only [Point.afterLeaf] at hpass
    simp only [Gate.pass]
    split
    · rename_i hd
      rw [hd] at hpass
      exact hI.endDrive hpass
    · rename_i deadline hd
      rw [hd] at hpass
      exact hpass

theorem drive {g : Gate} {c : GateCommand} {d : Direction} (hc : g.controls.resolveImpulse c = commandFor d)
    (h : I g (.execute c)) : (g.drive d).Holds I := by
  unfold Gate.drive
  split
  · rename_i reason hb
    exact hI.endStep (hI h nofun (.refuse hc (by rw [hb]; simp)))
  · rename_i hb
    exact hI.driveLoop (hI h nofun (.begin hc hb))

theorem execute {g : Gate} {c : GateCommand} (h : I g (.execute c)) : (g.execute c).Holds I := by
  unfold Gate.execute
  split
  · rename_i hc
    exact hI.drive (d := .opening) hc h
  · rename_i hc
    exact hI.drive (d := .closing) hc h
  · rename_i hc
    exact hI.endStep (hI h nofun (.stop fun d => by rw [hc]; cases d <;> nofun))
  · rename_i hc
    exact hI.endStep (hI h nofun (.stop fun d => by rw [hc]; cases d <;> nofun))

end PreservedWithin

/-! ## Within a movement -/

namespace PreservedBusy

variable {I : Gate → Point → Prop} (hI : PreservedBusy I)

include hI

theorem moving {g g' : Gate} {dr : Drive} {dl : Instant} {y : Bool} {p' : Point} (h : I g (.await (.moving dr dl y)))
    (hs : Step g (.await (.moving dr dl y)) g' p') : I g' p' :=
  hI h (Or.inr ⟨dr, dl, y, rfl⟩) hs

theorem driveSelectSignals {g : Gate} {dr : Drive} {dl : Instant} {y : Bool} (h : I g (.await (.moving dr dl y))) :
    (g.driveSelectSignals dr dl).state.Holds I := by
  unfold Gate.driveSelectSignals
  split
  · rename_i c hc
    split
    · rename_i hs
      exact Task.Holds.proceed (hI.within.driveLoop (hI.moving h (.sameCommand (hs ▸ hc))))
    · rename_i hs
      exact Task.Holds.proceed (hI.within.endDrive (hI.moving h (.interrupt hc hs)))
  · rename_i hc
    split
    · rename_i hb
      exact Task.Holds.proceed (hI.within.driveLoop (hI.moving h (.barrier hc hb)))
    · rename_i hb
      split
      · rename_i hr
        exact Task.Holds.proceed (hI.within.driveLoop (hI.moving h (.announce hc hb hr)))
      · rename_i hr
        exact hI.moving h (.suspend hc hb hr)

theorem driveSelect {g : Gate} {dr : Drive} {dl : Instant} {y : Bool} (h : I g (.await (.moving dr dl y))) :
    (g.driveSelect dr dl y).state.Holds I := by
  unfold Gate.driveSelect
  split
  · rename_i hy
    subst hy
    have ht := hI.moving h .readClock
    split
    · rename_i hd
      exact Task.Holds.proceed (hI.within.driveLoop (hI.moving ht (.timer hd)))
    · exact hI.driveSelectSignals ht
  · exact hI.driveSelectSignals h

end PreservedBusy

/-! ## Turns, polls and runs -/

namespace Preserved

variable {I : Gate → Point → Prop} (hI : Preserved I)

include hI

theorem idleSelect {g : Gate} {w : Await} (hw : w.Listens g) (h : I g (.await w)) :
    g.idleSelect.state.Holds I := by
  unfold Gate.idleSelect
  split
  · rename_i c hc
    exact Task.Holds.proceed (hI.within.execute (hI (.takeCommand hw hc) h))
  · rename_i hc
    split
    · rename_i hr
      exact Task.Holds.proceed (hI.within.endStep (hI (.takeReset hw hc hr) h))
    · rename_i hr
      exact hI (.rest hw hc hr) h

/-- What every block preserves, a turn preserves. -/
theorem advance {t : Task} (h : t.Holds I) : t.advance.state.Holds I := by
  unfold Task.advance
  unfold Task.Holds at h
  split
  · rename_i s hs
    rw [hs] at h
    split
    · rename_i c hp
      exact Task.Holds.proceed (hI.within.execute (hI (.takePending hp) h))
    · rename_i hp
      exact hI.idleSelect (w := .settled s) hp h
  · rename_i hs
    rw [hs] at h
    exact hI.idleSelect (w := .idle) trivial h
  · rename_i dr dl y hs
    rw [hs] at h
    exact hI.busy.driveSelect h

/-- What every block preserves, a poll preserves. -/
theorem poll {t : Task} (h : t.Holds I) : t.poll.Holds I :=
  loop_invariant (P := Task.Holds I) (fun _ => hI.advance) h _

/-- What every block preserves, a poll of several steps preserves. -/
theorem pollSteps {t : Task} (h : t.Holds I) (more : Nat) : (t.pollSteps more).Holds I := by
  refine loop_invariant (P := Task.Holds I) (fun s hs => ?_) h _
  unfold Task.stepTurn
  split <;> exact hI.poll hs

/-- What every block preserves, and every allowed event while the task sleeps, holds after every run of allowed events. -/
theorem run {ok : Task → Event → Prop} (hcall : ∀ (t : Task) c, ok t (.call c) → t.Holds I → (t.call c).Holds I)
    (hwait : ∀ (t : Task) d lag, ok t (.poll d lag) → t.Holds I → (t.wait d lag).Holds I) {t : Task} (h : t.Holds I)
    {events : List Event} (hok : Allowed Task.next ok t events) : (Machine.run Task.next t events).Holds I := by
  refine run_invariant (P := Task.Holds I) (fun s e he hs => ?_) h hok
  cases e with
  | call c => exact hcall s c he hs
  | poll d lag => exact hI.poll (hwait s d lag he hs)

/-- What every block preserves, and everything that can happen while the task sleeps, holds after every run. -/
theorem always (hcall : ∀ (t : Task) c, t.Holds I → (t.call c).Holds I)
    (hwait : ∀ (t : Task) d lag, t.Holds I → (t.wait d lag).Holds I) {t : Task} (h : t.Holds I) (events : List Event) :
    (Machine.run Task.next t events).Holds I := by
  refine run_always (P := Task.Holds I) (fun s e hs => ?_) h events
  cases e with
  | call c => exact hcall s c hs
  | poll d lag => exact hI.poll (hwait s d lag hs)

/-- What every block preserves, and everything that can happen while the task sleeps, and holds after boot, holds of every
reachable state. -/
theorem after (hcall : ∀ (t : Task) c, t.Holds I → (t.call c).Holds I)
    (hwait : ∀ (t : Task) d lag, t.Holds I → (t.wait d lag).Holds I)
    {early : List Call} {a b : MotorSettings} {locked : Bool} (h : (boot early a b locked).Holds I) (events : List Event) :
    (after early a b locked events).Holds I :=
  hI.always hcall hwait h events

end Preserved

end GateLink
