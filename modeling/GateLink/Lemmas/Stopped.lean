import GateLink.Lemmas.Poll
import GateLink.Lemmas.Shape

/-!
# What a command that ends movements leaves behind

STOP, and an impulse given while the gate moves, are taken from the slot and hand nothing back. From then on the gate is
`Stopped`: nothing is pending, nothing is in flight, and no block of the task changes that or writes a relay high, until a call
sends a command that starts a movement. How the first poll gets there is `ending_turn`: the pending command or a due timer may be
served before the slot.
-/

namespace GateLink

open Machine

/-- The call sends a command that can start a movement, if it is accepted. -/
def Call.Starts : Call → Prop
  | .open | .close | .impulse | .windTrigger => True
  | _ => False

/-- The event is a call that can start a movement. -/
def Event.Starts : Event → Prop
  | .call c => c.Starts
  | .poll _ _ => False

/-- The entry neither energizes a relay nor starts a movement. -/
def Entry.Passive (e : Entry) : Prop :=
  match e.output with
  | .write _ true | .start _ => False
  | _ => True

theorem Entry.Passive.not_switchesOn {e : Entry} (h : e.Passive) (p : Pin) : ¬e.SwitchesOn p := by
  rintro ⟨ho, -⟩
  simp [Passive, ho] at h

/-! ## Blocks that write nothing high -/

theorem Motor.stop_passive {leaf : Leaf} (m : Motor leaf) (bd : Board) :
    Trace.Adds Entry.Passive bd.trace (m.stop bd).2.trace := by
  cases hs : m.state with
  | idle =>
    rw [stop_of_idle hs]
    exact .refl _ _
  | running d t =>
    rw [stop_of_running hs]
    exact .cons (.cons (.refl _ _) trivial) trivial

theorem stopBoth_passive (g : Gate) :
    Trace.Adds Entry.Passive g.board.trace ((g.stopLeaf .a).stopLeaf .b).board.trace :=
  (g.a.stop_passive g.board).trans (g.b.stop_passive (g.stopLeaf .a).board)

/-- A block adds passive entries only, unless it starts a movement or a leaf that is due. -/
theorem passive_step {g g' : Gate} {p p' : Point} (hs : Step g p g' p')
    (hbegin : ∀ c d, p = .execute c → g.controls.resolveImpulse c ≠ commandFor d)
    (hstart : ∀ dr leaf now at', p = .starting dr leaf now → dr.phase leaf = .waiting at' → now < at') :
    Trace.Adds Entry.Passive g.board.trace g'.board.trace := by
  cases hs with
  | @begin c d hc hb => exact absurd hc (hbegin c d rfl)
  | stop hc => exact stopBoth_passive g
  | @start dr leaf now at' r hp hn hr => exact absurd hn (Nat.not_le_of_lt (hstart dr leaf now at' rfl hp))
  | @complete dr leaf now at' hp hn => exact (g.motor leaf).stop_passive g.board
  | announce hc hb hr => exact .cons (.refl _ _) trivial
  | @finish dr result =>
    exact Gate.endDrive_rule (P := fun g' => Trace.Adds Entry.Passive g.board.trace g'.board.trace) (stopBoth_passive g)
      (fun _ h => h) (fun _ h => h.cons trivial) dr
  | settle => exact .cons (.refl _ _) trivial
  | _ => exact .refl _ _

/-! ## Stopped -/

/-- Nothing is pending and nothing is in flight: at most a STOP is being executed. -/
def Calm (g : Gate) : Point → Prop
  | .await (.settled _) => g.pending = none
  | .await .idle => g.pending = none
  | .execute c => c = .stop
  | .over _ result => result = none
  | .ended result => result = none
  | _ => False

/-- The gate is stopped: the wind lock is off, the slot holds at most a STOP, and nothing is pending or in flight. -/
structure Stopped (g : Gate) (p : Point) : Prop where
  unlocked : g.controls.windLocked = false
  command : g.controls.command = none ∨ g.controls.command = some .stop
  calm : Calm g p

/-- A STOP is not resolved to a movement. -/
theorem resolveImpulse_stop (c : Controls) (d : Direction) : c.resolveImpulse .stop ≠ commandFor d := by
  cases d <;> simp [Controls.resolveImpulse, commandFor]

/-- A stopped gate stays stopped, and what it adds to the trace is passive. -/
theorem stopped_step {trace : List Entry} :
    Preserved (fun g p => Stopped g p ∧ Trace.Adds Entry.Passive trace g.board.trace) := by
  intro g p g' p' hs h
  obtain ⟨⟨hl, hc, hcalm⟩, ht⟩ := h
  have hpassive := ht.trans (passive_step hs
    (fun c d he => by
      subst he
      obtain rfl : c = .stop := hcalm
      exact resolveImpulse_stop _ d)
    (fun dr leaf now at' he => by
      subst he
      exact hcalm.elim))
  refine ⟨?_, hpassive⟩
  cases hs with
  | @takePending s c hp =>
    have hn : g.pending = none := hcalm
    rw [hp] at hn
    cases hn
  | @takeCommand w c hw hcm =>
    obtain rfl : c = .stop := by
      rcases hc with hc | hc
      · rw [hc] at hcm
        cases hcm
      · rw [hc] at hcm
        exact (Option.some.inj hcm).symm
    exact ⟨hl, Or.inl rfl, rfl⟩
  | takeReset hw hcm hr => exact ⟨hl, hc, rfl⟩
  | @rest w hw hcm hr =>
    cases w with
    | settled s => exact ⟨hl, hc, hw⟩
    | idle => exact ⟨hl, hc, hcalm⟩
    | moving dr dl y => exact hw.elim
  | refuse hr hb => exact ⟨hl, hc, rfl⟩
  | @begin c d hr hb =>
    obtain rfl : c = .stop := hcalm
    exact absurd hr (resolveImpulse_stop _ _)
  | stop hr => exact ⟨by simpa using hl, by simpa using hc, rfl⟩
  | @finish dr result =>
    refine ⟨?_, ?_, hcalm⟩
    · rw [Gate.endDrive_controls]
      exact hl
    · rw [Gate.endDrive_controls]
      exact hc
  | settle => exact ⟨hl, hc, hcalm⟩
  | _ => exact hcalm.elim

/-- A call that starts no movement, made while the wind lock is off, sends at most a STOP. -/
theorem Call.apply_of_not_starts {call : Call} {c : Controls} (hl : c.windLocked = false) (h : ¬call.Starts) :
    (call.apply c).windLocked = false ∧
      ((call.apply c).command = c.command ∨ (call.apply c).command = some .stop) := by
  cases call with
  | stop =>
    refine ⟨?_, Or.inr ?_⟩ <;> simp [apply, Controls.stop, Controls.sendUnlessLocked, hl, Controls.send]
  | barrier1Set active =>
    refine ⟨?_, Or.inl ?_⟩ <;> simp [apply, Controls.barrier1Set, hl]
  | barrier2Set active => exact ⟨hl, Or.inl rfl⟩
  | setBarrierBypass active => exact ⟨hl, Or.inl rfl⟩
  | resetWindLock => exact ⟨rfl, Or.inl rfl⟩
  | _ => exact absurd trivial h

theorem stopped_call {t : Task} {c : Call} (h : t.Holds Stopped) (hc : ¬c.Starts) : (t.call c).Holds Stopped := by
  obtain ⟨hl, hcm⟩ := Call.apply_of_not_starts h.unlocked hc
  refine ⟨hl, ?_, ?_⟩
  · rcases hcm with he | he
    · have := h.command
      rwa [← he] at this
    · exact Or.inr he
  · obtain ⟨g, w⟩ := t
    cases w with
    | settled s => exact h.calm
    | idle => exact h.calm
    | moving dr dl y => exact h.calm.elim

theorem stopped_wait {t : Task} (h : t.Holds Stopped) (sleep : Duration) (lag : Nat → Duration) :
    (t.wait sleep lag).Holds Stopped := by
  refine ⟨h.unlocked, h.command, ?_⟩
  obtain ⟨g, w⟩ := t
  cases w with
  | settled s => exact h.calm
  | idle => exact h.calm
  | moving dr dl y => exact h.calm.elim

/-- A stopped gate stays stopped along every run without a call that starts a movement, and what the run adds to the trace is
passive. -/
theorem stopped_run {t : Task} (h : t.Holds Stopped) {events : List Event} (he : ∀ e ∈ events, ¬e.Starts) :
    (run Task.next t events).Holds Stopped ∧
      Trace.Adds Entry.Passive t.gate.board.trace (run Task.next t events).gate.board.trace := by
  have hok : Allowed Task.next (fun _ e => ¬e.Starts) t events := allowed_of_forall he t
  exact stopped_step.run (fun s c hc hs => ⟨stopped_call hs.1 hc, hs.2⟩)
    (fun s d lag _ hs => ⟨stopped_wait hs.1 d lag, hs.2⟩) ⟨h, .refl _ _⟩ hok

/-- A stopped gate has every relay released. -/
theorem stopped_low {t : Task} (h : t.Holds Stopped) (hs : t.Holds Shape) (p : Pin) : t.gate.board.levels p = false := by
  obtain ⟨g, w⟩ := t
  cases w with
  | settled s => exact hs.1.wired.low hs.1.still p
  | idle => exact hs.1.wired.low hs.1.still p
  | moving dr dl y => exact h.calm.elim

/-! ## The poll that finds a command which ends movements -/

/-- A command that ends movements is in the slot, and what is executed before it is taken hands nothing back. -/
structure Ending (command : GateCommand) (g : Gate) (p : Point) : Prop where
  unlocked : g.controls.windLocked = false
  command : g.controls.command = some command
  result :
    match p with
    | .await (.settled _) => g.pending = none
    | .over _ result => result = none
    | .ended result => result = none
    | _ => True

theorem Ending.afterLeaf {c : GateCommand} {g : Gate} (hl : g.controls.windLocked = false)
    (hc : g.controls.command = some c) (dr : Drive) (now : Instant) (leaf : Leaf) : Ending c g (.afterLeaf dr now leaf) :=
  Point.afterLeaf_rule ⟨hl, hc, trivial⟩ (fun _ => ⟨hl, hc, rfl⟩) (fun _ _ => ⟨hl, hc, trivial⟩) leaf

/-- What is executed before the command is taken hands nothing back. -/
theorem ending_within (c : GateCommand) : PreservedWithin (Ending c) := by
  intro g p g' p' h hp hs
  have hl := h.unlocked
  have hc := h.command
  cases hs with
  | takePending | takeCommand | takeReset | rest => exact absurd rfl (hp _)
  | readClock | timer | sameCommand | interrupt | barrier | announce | suspend => exact absurd rfl (hp _)
  | refuse hr hb => exact ⟨hl, hc, rfl⟩
  | begin hr hb => exact ⟨hl, hc, trivial⟩
  | stop hr => exact ⟨by simpa using hl, by simpa using hc, rfl⟩
  | block hb => exact ⟨hl, hc, rfl⟩
  | look hb => exact ⟨hl, hc, trivial⟩
  | notDue hw => exact ⟨hl, hc, trivial⟩
  | start hw hn hr => exact ⟨by simpa using hl, by simpa using hc, trivial⟩
  | skip hw hn hr => exact ⟨hl, hc, trivial⟩
  | keep hw => exact .afterLeaf hl hc _ _ _
  | complete hw hn => exact .afterLeaf (by simpa using hl) (by simpa using hc) _ _ _
  | finish => exact ⟨by rw [Gate.endDrive_controls]; exact hl, by rw [Gate.endDrive_controls]; exact hc, h.result⟩
  | settle => exact ⟨hl, hc, h.result⟩

/-- The step is over and the gate is stopped: the command was taken from the slot, and no relay was energized for it. -/
structure Taken (t t' : Task) : Prop where
  settled : t'.Settled
  stopped : t'.Holds Stopped
  command : t'.gate.controls.command = none
  passive : Trace.Adds Entry.Passive t.gate.board.trace t'.gate.board.trace

/-- A STOP at rest. -/
theorem Taken.atRest {t : Task} {g : Gate} (hg : g = t.gate) (hl : g.controls.windLocked = false) :
    Taken t (g.takeCommand.execute .stop) := by
  subst hg
  have hx : t.gate.takeCommand.execute .stop = ((t.gate.takeCommand.stopLeaf .a).stopLeaf .b).endStep none := rfl
  rw [hx]
  refine ⟨⟨_, rfl⟩, ⟨?_, Or.inl ?_, rfl⟩, ?_, ?_⟩
  · simpa [Gate.endStep_controls] using hl
  · simp [Gate.endStep_controls]
  · simp [Gate.endStep_controls]
  · exact (stopBoth_passive t.gate.takeCommand).cons trivial

/-- A command that ends a movement in flight. -/
theorem Taken.moving {t : Task} {g : Gate} (hg : g.board.trace = t.gate.board.trace) (hl : g.controls.windLocked = false)
    (dr : Drive) : Taken t ((g.takeCommand.endDrive dr).endStep none) := by
  have h : Stopped g.takeCommand (.over dr none) ∧ Trace.Adds Entry.Passive t.gate.board.trace g.takeCommand.board.trace := by
    refine ⟨⟨hl, Or.inl rfl, rfl⟩, ?_⟩
    rw [Gate.takeCommand_board, Board.modify_trace, hg]
    exact .refl _ _
  have h' := stopped_step.within.endDrive h
  refine ⟨⟨_, rfl⟩, h'.1, ?_, h'.2⟩
  rw [Gate.endStep_controls, Gate.endDrive_controls]
  rfl

/-- A turn of the task that finds a STOP in its slot, or an impulse within a movement: it executes the pending command first, or
serves its timer first, or takes the command and is stopped. -/
theorem ending_turn {t : Task} {c : GateCommand} (hl : t.gate.controls.windLocked = false)
    (hc : t.gate.controls.command = some c) (hend : c = .stop ∨ c = .impulse ∧ ∃ dr dl y, t.await = .moving dr dl y) :
    (∃ s c', t.await = .settled s ∧ t.gate.pending = some c' ∧
      t.advance = ({ t.gate with pending := none }.execute c').proceed) ∨
    (∃ dr dl, t.await = .moving dr dl true ∧ dl ≤ t.gate.tick.now ∧ t.advance = (t.gate.tick.driveLoop dr).proceed) ∨
    ∃ t', t.advance = .halt t' ∧ Taken t t' := by
  have hrest (hn : ∀ dr dl y, t.await ≠ .moving dr dl y) :
      t.gate.idleSelect = .halt (t.gate.takeCommand.execute .stop) := by
    have hstop : c = .stop := hend.resolve_right fun ⟨_, dr, dl, y, ha⟩ => hn dr dl y ha
    unfold Gate.idleSelect
    rw [hc, hstop]
    rfl
  have hsignals (g : Gate) (dr : Drive) (dl : Instant) (hg : g.controls.command = some c) :
      g.driveSelectSignals dr dl = .halt ((g.takeCommand.endDrive dr).endStep none) := by
    have hne : c ≠ commandFor dr.direction := by
      rcases hend with rfl | ⟨rfl, -⟩ <;> cases dr.direction <;> nofun
    have hh : handedBack c = none := by
      rcases hend with rfl | ⟨rfl, -⟩ <;> rfl
    unfold Gate.driveSelectSignals
    rw [hg]
    simp only [if_neg hne, hh]
    rfl
  unfold Task.advance
  cases ha : t.await with
  | settled s =>
    cases hp : t.gate.pending with
    | some c' => exact Or.inl ⟨s, c', rfl, rfl, rfl⟩
    | none => exact Or.inr (Or.inr ⟨_, hrest (by rw [ha]; nofun), .atRest rfl hl⟩)
  | idle => exact Or.inr (Or.inr ⟨_, hrest (by rw [ha]; nofun), .atRest rfl hl⟩)
  | moving dr dl y =>
    refine Or.inr ?_
    unfold Gate.driveSelect
    cases y with
    | false => exact Or.inr ⟨_, hsignals t.gate dr dl hc, .moving rfl hl dr⟩
    | true =>
      by_cases hd : dl ≤ t.gate.tick.now
      · exact Or.inl ⟨dr, dl, rfl, hd, if_pos hd⟩
      · exact Or.inr ⟨_, (if_neg hd).trans (hsignals t.gate.tick dr dl hc), .moving (g := t.gate.tick) rfl hl dr⟩

end GateLink
