import GateLink.Lemmas.Gate

/-!
# How a poll ends

A poll never runs out of turns: every turn but the first takes a signal. It ends with the step over, or suspended with nothing
left that the task waits for (`Task.poll_ends`). A poll that runs steps back to back ends in the same two ways, and if it may
run enough of them it ends suspended (`Task.pollSteps_silent`), since every step of it uses up a signal, the pending command
or the movement in flight.
-/

namespace GateLink

open Machine

/-- The task is suspended, and no signal it waits for is set. -/
def Task.Silent (t : Task) : Prop :=
  match t.await with
  | .settled _ => False
  | .idle => t.gate.controls.command = none ∧ t.gate.controls.windLockReset = none
  | .moving _ _ _ =>
    t.gate.controls.command = none ∧ t.gate.controls.barrierChanged = none ∧ t.gate.controls.windLockReset = none

/-- The step is over. -/
def Task.Settled (t : Task) : Prop := ∃ s, t.await = .settled s

/-- What the code between two awaits leaves, if nothing is handed back: no signal is touched, and the step is over or a timer
was just built. -/
structure Outcome (g : Gate) (t : Task) : Prop where
  signals : t.gate.controls.signals = g.controls.signals
  await : (t.Settled ∧ t.gate.pending = none) ∨
    (∃ dr dl, t.await = .moving dr dl false) ∧ t.gate.pending = g.pending

theorem endStep_outcome {g g' : Gate} (h : g'.controls.signals = g.controls.signals) : Outcome g (g'.endStep none) :=
  ⟨h, Or.inl ⟨⟨_, rfl⟩, rfl⟩⟩

theorem endDrive_signals (g : Gate) (dr : Drive) : (g.endDrive dr).controls.signals = g.controls.signals := by
  rw [Gate.endDrive_controls]
  rfl

theorem driveLoop_outcome (g : Gate) (dr : Drive) : Outcome g (g.driveLoop dr) := by
  unfold Gate.driveLoop
  split
  · exact endStep_outcome (endDrive_signals _ _)
  · simp only
    split
    · exact endStep_outcome ((endDrive_signals _ _).trans (by rw [Gate.pass_controls]))
    · exact ⟨by simp, Or.inr ⟨⟨_, _, rfl⟩, by simp⟩⟩

theorem drive_outcome (g : Gate) (d : Direction) : Outcome g (g.drive d) := by
  unfold Gate.drive
  split
  · exact endStep_outcome rfl
  · have h := driveLoop_outcome (g.begin d) ((g.begin d).initialDrive d)
    exact ⟨h.signals, h.await⟩

theorem execute_outcome (g : Gate) (c : GateCommand) : Outcome g (g.execute c) := by
  unfold Gate.execute
  split
  · exact drive_outcome g _
  · exact drive_outcome g _
  · exact endStep_outcome (by simp)
  · exact endStep_outcome (by simp)

/-- What bounds the turns of a poll: the signals, and a first turn that need not take one. -/
def Task.turns (t : Task) : Nat :=
  t.gate.controls.signals +
    match t.await with
    | .moving _ _ false => 0
    | _ => 1

/-- A poll may take more turns than it needs. -/
theorem Task.turns_lt (t : Task) : t.turns < t.gate.controls.signals + 2 := by
  unfold Task.turns
  split <;> omega

theorem Task.turns_moving {t : Task} {dr : Drive} {dl : Instant} (h : t.await = .moving dr dl false) :
    t.turns = t.gate.controls.signals := by
  simp [Task.turns, h]

theorem Task.work_settled {t : Task} {s : Snapshot} (h : t.await = .settled s) :
    t.work = 2 * t.gate.controls.signals + t.gate.pending.isSome.toNat := by
  simp [Task.work, h]

theorem Task.work_moving {t : Task} {dr : Drive} {dl : Instant} {y : Bool} (h : t.await = .moving dr dl y) :
    t.work = 2 * t.gate.controls.signals + t.gate.pending.isSome.toNat + 1 := by
  simp [Task.work, h]

/-- A turn that goes on takes a signal, unless it is the first; a turn that halts has used something up or leaves the task
silent. -/
def TurnOk (t : Task) : Turn Task → Prop
  | .again t' => t'.turns < t.turns ∧ t'.work ≤ t.work
  | .halt t' => (t'.Settled ∧ t'.work < t.work) ∨ t'.Silent

/-- A turn that goes on with an outcome is a good turn, if getting there took a signal, the pending command or, with a timer
that was polled before, nothing. -/
theorem Outcome.proceed {g : Gate} {t r : Task} (h : Outcome g r) (hs : g.controls.signals < t.turns)
    (hm : 2 * g.controls.signals + g.pending.isSome.toNat + 1 ≤ t.work) : TurnOk t r.proceed := by
  have hr := h.signals
  rcases h.await with ⟨⟨s, ha⟩, hp⟩ | ⟨⟨dr, dl, ha⟩, hp⟩
  · simp only [Task.proceed, ha]
    refine Or.inl ⟨⟨s, ha⟩, ?_⟩
    rw [Task.work_settled ha, hp, hr]
    simp only [Option.isSome_none, Bool.toNat_false]
    omega
  · simp only [Task.proceed, ha, TurnOk]
    rw [Task.turns_moving ha, Task.work_moving ha, hp, hr]
    exact ⟨hs, hm⟩

theorem signals_takeCommand {g : Gate} {c : GateCommand} (h : g.controls.command = some c) :
    g.takeCommand.controls.signals + 1 = g.controls.signals := by
  simp [Controls.signals, h]
  omega

theorem signals_takeBarrierChanged {g : Gate} (h : g.controls.barrierChanged = some ()) :
    g.takeBarrierChanged.controls.signals + 1 = g.controls.signals := by
  simp [Controls.signals, h]
  omega

theorem signals_takeWindLockReset {g : Gate} (h : g.controls.windLockReset = some ()) :
    g.takeWindLockReset.controls.signals + 1 = g.controls.signals := by
  simp [Controls.signals, h]

theorem idleSelect_turn {t : Task} {g : Gate} (hg : g = t.gate) (ha : ∀ dr dl y, t.await ≠ .moving dr dl y) :
    TurnOk t g.idleSelect := by
  have hturns : t.turns = t.gate.controls.signals + 1 := by
    unfold Task.turns
    split
    · rename_i h
      exact absurd h (ha _ _ _)
    · rfl
  have hwork : 2 * t.gate.controls.signals + t.gate.pending.isSome.toNat ≤ t.work := Nat.le_add_right _ _
  subst hg
  unfold Gate.idleSelect
  split
  · rename_i c hc
    have hs := signals_takeCommand hc
    exact (execute_outcome _ c).proceed (by omega) (by simp only [Gate.takeCommand_pending]; omega)
  · rename_i hc
    split
    · rename_i hr
      have hs := signals_takeWindLockReset hr
      exact (endStep_outcome rfl).proceed (by omega) (by simp only [Gate.takeWindLockReset_pending]; omega)
    · rename_i hr
      exact Or.inr ⟨hc, hr⟩

theorem driveSelectSignals_turn {t : Task} {g : Gate} {dr dr' : Drive} {dl dl' : Instant} {y : Bool}
    (ha : t.await = .moving dr' dl' y) (hc : g.controls = t.gate.controls) (hp : g.pending = t.gate.pending) :
    TurnOk t (g.driveSelectSignals dr dl) := by
  have hturns : g.controls.signals ≤ t.turns := by
    rw [hc]
    exact Nat.le_add_right _ _
  have hwork : 2 * g.controls.signals + g.pending.isSome.toNat + 1 = t.work := by
    rw [Task.work_moving ha, hc, hp]
  unfold Gate.driveSelectSignals
  split
  · rename_i c hcm
    have hs := signals_takeCommand hcm
    split
    · exact (driveLoop_outcome _ dr).proceed (by omega) (by simp only [Gate.takeCommand_pending]; omega)
    · refine Or.inl ⟨⟨_, rfl⟩, ?_⟩
      have hb : (handedBack c).isSome.toNat ≤ 1 := Bool.toNat_le _
      have he : ((g.takeCommand.endDrive dr).endStep (handedBack c)).gate.controls.signals =
          g.takeCommand.controls.signals := by
        rw [Gate.endStep_controls]
        exact endDrive_signals _ _
      rw [Task.work_settled rfl, he, Gate.endStep_pending]
      omega
  · rename_i hcm
    split
    · rename_i hb
      have hs := signals_takeBarrierChanged hb
      exact (driveLoop_outcome _ dr).proceed (by omega) (by simp only [Gate.takeBarrierChanged_pending]; omega)
    · rename_i hb
      split
      · rename_i hr
        have hs := signals_takeWindLockReset hr
        exact (driveLoop_outcome (g.takeWindLockReset.record .notify) dr).proceed
          (by simp only [Gate.record_controls]; omega)
          (by simp only [Gate.record_controls, Gate.record_pending, Gate.takeWindLockReset_pending]; omega)
      · rename_i hr
        exact Or.inr ⟨hcm, hb, hr⟩

theorem advance_turn (t : Task) : TurnOk t t.advance := by
  unfold Task.advance
  split
  · rename_i s ha
    split
    · rename_i c hp
      refine (execute_outcome _ c).proceed ?_ ?_
      · simp only [Task.turns, ha, Gate.pending_controls]
        omega
      · simp [Task.work, ha, hp, Gate.controls]
    · exact idleSelect_turn rfl (by rw [ha]; nofun)
  · rename_i ha
    exact idleSelect_turn rfl (by rw [ha]; nofun)
  · rename_i dr dl y ha
    unfold Gate.driveSelect
    split
    · rename_i hy
      subst hy
      split
      · refine (driveLoop_outcome _ dr).proceed ?_ ?_
        · simp only [Task.turns, ha, Gate.tick_controls]
          omega
        · simp only [Task.work, ha, Gate.tick_controls, Gate.tick_pending]
          omega
      · exact driveSelectSignals_turn ha rfl rfl
    · exact driveSelectSignals_turn ha rfl rfl

/-- A poll ends with the step over, and something used up, or with the task silent. -/
theorem Task.poll_ends (t : Task) : (t.poll.Settled ∧ t.poll.work < t.work) ∨ t.poll.Silent := by
  have hb : t.turns < t.gate.controls.signals + 2 := t.turns_lt
  refine loop_rule (P := fun s => s.work ≤ t.work) (Q := fun s => (s.Settled ∧ s.work < t.work) ∨ s.Silent) Task.turns
    (fun s s' hs h => ?_) (fun s s' hs h => ?_) (Nat.le_refl _) hb
  · have := advance_turn s
    rw [h] at this
    exact ⟨Nat.le_trans this.2 hs, this.1⟩
  · have := advance_turn s
    rw [h] at this
    exact this.imp_left (fun ⟨h1, h2⟩ => ⟨h1, Nat.lt_of_lt_of_le h2 hs⟩)

/-- The rule of the turns of a task: `P` holds as long as they go on, `Q` where they end. -/
theorem Task.turns_rule {P Q : Task → Prop} {t : Task} (h : P t)
    (hturn : ∀ s, P s → (∃ r : Task, s.advance = r.proceed ∧ (r.Settled → Q r) ∧ (¬r.Settled → P r)) ∨
      ∃ s', s.advance = .halt s' ∧ Q s') {bound : Nat} (hb : t.turns < bound) : Q (loop Task.advance bound t) := by
  refine loop_rule (P := P) (Q := Q) Task.turns (fun s s' hs h => ?_) (fun s s' hs h => ?_) h hb
  · have hμ := advance_turn s
    rw [h] at hμ
    refine ⟨?_, hμ.1⟩
    rcases hturn s hs with ⟨r, he, -, hr⟩ | ⟨s'', he, -⟩
    · rw [he] at h
      unfold Task.proceed at h
      split at h
      · cases h
      · rename_i hn
        obtain rfl := Turn.again.inj h
        exact hr fun ⟨sn, ha⟩ => hn sn ha
    · rw [he] at h
      cases h
  · rcases hturn s hs with ⟨r, he, hr, -⟩ | ⟨s'', he, hq⟩
    · rw [he] at h
      unfold Task.proceed at h
      split at h
      · rename_i sn ha
        obtain rfl := Turn.halt.inj h
        exact hr ⟨sn, ha⟩
      · cases h
    · rw [he] at h
      obtain rfl := Turn.halt.inj h
      exact hq

/-- The rule of a poll. -/
theorem Task.poll_rule {P Q : Task → Prop} {t : Task} (h : P t)
    (hturn : ∀ s, P s → (∃ r : Task, s.advance = r.proceed ∧ (r.Settled → Q r) ∧ (¬r.Settled → P r)) ∨
      ∃ s', s.advance = .halt s' ∧ Q s') : Q t.poll :=
  Task.turns_rule h hturn t.turns_lt

/-- A turn that does not get to any code between two awaits: the gate is left as it was, but for a reading of the clock, suspended
with nothing signalled. -/
def Task.Suspends (t s : Task) : Prop :=
  (s.gate = t.gate ∨ s.gate = t.gate.tick) ∧ s.Silent ∧
    (((∀ dr dl y, t.await ≠ .moving dr dl y) ∧ s.gate = t.gate ∧ s.await = .idle) ∨
      ∃ dr dl y, t.await = .moving dr dl y ∧ s.await = .moving dr dl true)

/-- `I` holds wherever a turn of the task gets into the code between two awaits. -/
def Task.Enters (I : Gate → Point → Prop) (t : Task) : Prop :=
  (∀ g p, Step t.gate (.await t.await) g p → p.Inner → I g p) ∧
    ∀ dr dl, t.await = .moving dr dl true → ∀ g p, Step t.gate.tick (.await t.await) g p → p.Inner → I g p

/-- The rule of a turn: it comes to what the code between two awaits keeps, or it suspends the task. -/
theorem PreservedWithin.advance {I : Gate → Point → Prop} (hI : PreservedWithin I) {t : Task} (h : t.Enters I) :
    (∃ r : Task, t.advance = r.proceed ∧ r.Holds I) ∨ ∃ s, t.advance = .halt s ∧ t.Suspends s := by
  obtain ⟨henter, htick⟩ := h
  have hidle {w : Await} (hw : t.await = w) (hl : w.Listens t.gate) (hn : ∀ dr dl y, w ≠ .moving dr dl y) :
      (∃ r : Task, t.gate.idleSelect = r.proceed ∧ r.Holds I) ∨ ∃ s, t.gate.idleSelect = .halt s ∧ t.Suspends s := by
    rw [hw] at henter
    unfold Gate.idleSelect
    split
    · rename_i c hc
      exact Or.inl ⟨_, rfl, hI.execute (henter _ _ (.takeCommand hl hc) nofun)⟩
    · rename_i hc
      split
      · rename_i hr
        exact Or.inl ⟨_, rfl, hI.endStep (henter _ _ (.takeReset hl hc hr) nofun)⟩
      · rename_i hr
        exact Or.inr ⟨_, rfl, Or.inl rfl, ⟨hc, hr⟩, Or.inl ⟨fun dr dl y ha => hn dr dl y (hw.symm.trans ha), rfl, rfl⟩⟩
  have hmoving {g : Gate} {dr : Drive} {dl : Instant} {y : Bool} (ha : t.await = .moving dr dl y)
      (hg : g = t.gate ∨ g = t.gate.tick) (he : ∀ g' p, Step g (.await (.moving dr dl y)) g' p → p.Inner → I g' p) :
      (∃ r : Task, g.driveSelectSignals dr dl = r.proceed ∧ r.Holds I) ∨
        ∃ s, g.driveSelectSignals dr dl = .halt s ∧ t.Suspends s := by
    unfold Gate.driveSelectSignals
    split
    · rename_i c hc
      split
      · rename_i hs
        exact Or.inl ⟨_, rfl, hI.driveLoop (he _ _ (.sameCommand (hs ▸ hc)) nofun)⟩
      · rename_i hs
        exact Or.inl ⟨_, rfl, hI.endDrive (he _ _ (.interrupt hc hs) nofun)⟩
    · rename_i hc
      split
      · rename_i hb
        exact Or.inl ⟨_, rfl, hI.driveLoop (he _ _ (.barrier hc hb) nofun)⟩
      · rename_i hb
        split
        · rename_i hr
          exact Or.inl ⟨_, rfl, hI.driveLoop (he _ _ (.announce hc hb hr) nofun)⟩
        · rename_i hr
          exact Or.inr ⟨_, rfl, hg, ⟨hc, hb, hr⟩, Or.inr ⟨dr, dl, y, ha, rfl⟩⟩
  unfold Task.advance
  split
  · rename_i s ha
    split
    · rename_i c hp
      rw [ha] at henter
      exact Or.inl ⟨_, rfl, hI.execute (henter _ _ (.takePending hp) nofun)⟩
    · rename_i hp
      exact hidle ha hp nofun
  · rename_i ha
    exact hidle ha trivial nofun
  · rename_i dr dl y ha
    rw [ha] at henter htick
    unfold Gate.driveSelect
    split
    · rename_i hy
      subst hy
      split
      · rename_i hd
        exact Or.inl ⟨_, rfl, hI.driveLoop (htick dr dl rfl _ _ (.timer hd) nofun)⟩
      · exact hmoving ha (Or.inr rfl) (htick dr dl rfl)
    · exact hmoving ha (Or.inl rfl) henter

/-- The rule of a poll, for an invariant of the code between two awaits: `P` holds of the task as long as it goes on, and leads to the
invariant wherever a turn gets into that code; what the invariant comes to at the next await gives `P` back, or `Q` if the step is over;
and where the task is suspended, `Q` holds. -/
theorem PreservedWithin.poll_rule {I : Gate → Point → Prop} (hI : PreservedWithin I) {P Q : Task → Prop} {t : Task} (h : P t)
    (henter : ∀ s, P s → s.Enters I) (hreturn : ∀ r : Task, r.Holds I → (r.Settled → Q r) ∧ (¬r.Settled → P r))
    (hsuspend : ∀ s s' : Task, P s → s.Suspends s' → Q s') : Q t.poll :=
  Task.poll_rule h fun s hs => (hI.advance (henter s hs)).imp
    (fun ⟨r, he, hr⟩ => ⟨r, he, (hreturn r hr).1, (hreturn r hr).2⟩) fun ⟨s', he, hs'⟩ => ⟨s', he, hsuspend s s' hs hs'⟩

/-- A turn within a movement ends the step, goes around the loop of `drive`, or suspends with the timer polled. -/
theorem advance_moving {t : Task} {dr : Drive} {dl : Instant} {y : Bool} (ha : t.await = .moving dr dl y) :
    (∃ r : Task, t.advance = r.proceed ∧ (r.Settled ∨ ∃ dr dl, r.await = .moving dr dl false)) ∨
      ∃ g, t.advance = .halt { gate := g, await := .moving dr dl true } := by
  have hloop (g : Gate) (dr : Drive) : (g.driveLoop dr).Settled ∨ ∃ dr' dl', (g.driveLoop dr).await = .moving dr' dl' false :=
    (driveLoop_outcome g dr).await.imp And.left And.left
  have hsignals (g : Gate) :
      (∃ r : Task, g.driveSelectSignals dr dl = r.proceed ∧ (r.Settled ∨ ∃ dr dl, r.await = .moving dr dl false)) ∨
        ∃ g', g.driveSelectSignals dr dl = .halt { gate := g', await := .moving dr dl true } := by
    unfold Gate.driveSelectSignals
    split
    · split
      · exact Or.inl ⟨_, rfl, hloop _ _⟩
      · exact Or.inl ⟨_, rfl, Or.inl ⟨_, rfl⟩⟩
    · split
      · exact Or.inl ⟨_, rfl, hloop _ _⟩
      · split
        · exact Or.inl ⟨_, rfl, hloop _ _⟩
        · exact Or.inr ⟨_, rfl⟩
  unfold Task.advance
  rw [ha]
  simp only [Gate.driveSelect]
  split
  · split
    · exact Or.inl ⟨_, rfl, hloop _ _⟩
    · exact hsignals _
  · exact hsignals _

theorem Task.proceed_state (t : Task) : t.proceed.state = t := by
  unfold Task.proceed
  split <;> rfl

section Busy

variable {I : Gate → Point → Prop} (hI : PreservedBusy I) {t : Task}

include hI

/-- The turns of a task within a movement keep what every block within it keeps, and end the step or suspend with the timer
polled. -/
theorem PreservedBusy.turns (hm : ∃ dr dl y, t.await = .moving dr dl y) (h : t.Holds I) {bound : Nat} (hb : t.turns < bound) :
    (loop Task.advance bound t).Holds I ∧
      ((loop Task.advance bound t).Settled ∨ ∃ dr dl, (loop Task.advance bound t).await = .moving dr dl true) := by
  refine Task.turns_rule (P := fun s => (∃ dr dl y, s.await = .moving dr dl y) ∧ s.Holds I)
    (Q := fun s => s.Holds I ∧ (s.Settled ∨ ∃ dr dl, s.await = .moving dr dl true)) ⟨hm, h⟩ (fun s hs => ?_) hb
  obtain ⟨⟨dr, dl, y, ha⟩, hs⟩ := hs
  have hstate : s.advance.state.Holds I := by
    unfold Task.advance
    rw [ha]
    unfold Task.Holds at hs
    rw [ha] at hs
    exact hI.driveSelect hs
  rcases advance_moving ha with ⟨r, he, hr⟩ | ⟨g, he⟩
  · rw [he, Task.proceed_state] at hstate
    refine Or.inl ⟨r, he, fun hset => ⟨hstate, Or.inl hset⟩, fun hn => ⟨?_, hstate⟩⟩
    obtain ⟨dr', dl', ha'⟩ := hr.resolve_left hn
    exact ⟨dr', dl', false, ha'⟩
  · rw [he] at hstate
    exact Or.inr ⟨_, he, hstate, Or.inr ⟨dr, dl, rfl⟩⟩

/-- A poll within a movement keeps what every block within it keeps, and ends the step or suspends with the timer polled. -/
theorem PreservedBusy.poll (hm : ∃ dr dl y, t.await = .moving dr dl y) (h : t.Holds I) :
    t.poll.Holds I ∧ (t.poll.Settled ∨ ∃ dr dl, t.poll.await = .moving dr dl true) :=
  hI.turns hm h t.turns_lt

end Busy

/-- A poll that runs steps back to back ends with a step over, or with the task silent. -/
theorem Task.pollSteps_ends (t : Task) (more : Nat) : (t.pollSteps more).Settled ∨ (t.pollSteps more).Silent := by
  have hturn (s : Task) : (s.stepTurn = .again s.poll ∧ s.poll.Settled) ∨ (s.stepTurn = .halt s.poll ∧ s.poll.Silent) := by
    unfold stepTurn
    split
    · rename_i sn ha
      exact Or.inl ⟨rfl, sn, ha⟩
    · rename_i hn
      exact Or.inr ⟨rfl, s.poll_ends.resolve_left (fun ⟨⟨sn, ha⟩, _⟩ => hn sn ha)⟩
  unfold pollSteps
  induction more generalizing t with
  | zero =>
    rcases hturn t with ⟨h, hs⟩ | ⟨h, hs⟩
    · rw [loop_succ_again h]
      exact Or.inl hs
    · rw [loop_succ_halt h]
      exact Or.inr hs
  | succ more ih =>
    rcases hturn t with ⟨h, hs⟩ | ⟨h, hs⟩
    · rw [loop_succ_again h]
      exact ih t.poll
    · rw [loop_succ_halt h]
      exact Or.inr hs

/-- A poll that may run enough steps back to back leaves the task silent. -/
theorem Task.pollSteps_silent {t : Task} {more : Nat} (h : t.work ≤ more) : (t.pollSteps more).Silent := by
  refine loop_rule (P := fun _ => True) (Q := Task.Silent) Task.work (fun s s' _ h => ?_) (fun s s' _ h => ?_) trivial
    (Nat.lt_succ_of_le h)
  · refine ⟨trivial, ?_⟩
    unfold Task.stepTurn at h
    split at h
    · rename_i sn ha
      cases h
      rcases s.poll_ends with ⟨-, hw⟩ | hs
      · exact hw
      · simp [Silent, ha] at hs
    · cases h
  · unfold Task.stepTurn at h
    split at h
    · cases h
    · rename_i hn
      cases h
      exact s.poll_ends.resolve_left (fun ⟨⟨sn, ha⟩, _⟩ => hn sn ha)

end GateLink
