import GateLink.Lemmas.Pass
import GateLink.Lemmas.Poll
import GateLink.Lemmas.Timing
import GateLink.Config

/-!
# The wind lock

While the wind lock is engaged, the gate opens and stays open: whenever it is idle with nothing left to execute, both leaves are
open or light barrier 1 is interrupted (`wind_lock_opens`). The OPEN that the wind guard sends can be in the slot, in the task's
hands, handed back as pending, or be the movement in flight; `Pursued` says that it is in one of these places, or was refused by
light barrier 1 and is sent again once that clears, or has been executed to the end.
-/

namespace GateLink

open Machine

namespace WindAux

/-- What the forced OPEN comes to: both leaves are open, or light barrier 1 holds it back. -/
def Forced (g : Gate) : Prop := (g.a.position = 255 ∧ g.b.position = 255) ∨ g.controls.barrier1Active = true

/-- Where the forced OPEN is. -/
def Goal (g : Gate) : Point → Prop
  | .await (.settled _) | .await .idle => g.controls.command = some .open ∨ g.pending = some .open ∨ Forced g
  | .execute c => c = .open ∨ g.controls.command = some .open
  | .await (.moving dr _ _) | .top dr | .starting dr _ _ | .stopping dr _ _ =>
    dr.direction = .opening ∨ g.controls.command = some .open
  | .over dr result =>
    result = some .open ∨ result = none ∧ (g.controls.command = some .open ∨ g.controls.barrier1Active = true ∨
      dr.direction = .opening ∧ ∀ leaf, dr.phase leaf = .done)
  | .ended result => result = some .open ∨ result = none ∧ (g.controls.command = some .open ∨ Forced g)

/-- While the wind lock is engaged, nothing but an OPEN is in the slot, an older pending command has an OPEN behind it, and the
forced OPEN is not lost. -/
structure Pursued (g : Gate) (p : Point) : Prop where
  slot : g.controls.command = none ∨ g.controls.command = some .open
  pending : ∀ c, g.pending = some c → c = .open ∨ g.controls.command = some .open
  goal : Goal g p

/-- Only light barrier 1 can block an opening. -/
theorem barrier1_of_blocked {c : Controls} (h : c.blocked .opening ≠ none) : c.barrier1Active = true := by
  by_contra hb
  refine h ((Controls.blocked_eq_none_iff _ _).mpr ⟨Or.inr ⟨?_, nofun⟩, nofun⟩)
  simpa using hb

/-- What resolves an OPEN to a movement opens. -/
theorem eq_opening_of_resolve {c : Controls} {d : Direction} (h : c.resolveImpulse .open = commandFor d) : d = .opening := by
  cases d with
  | opening => rfl
  | closing => simp [Controls.resolveImpulse, commandFor] at h

/-- An opening with both leaves done has opened both. -/
theorem forced_of_done {g : Gate} {dr : Drive} {result : Option GateCommand} (hshape : Shape g (.over dr result))
    (hl : g.LeavesTimed dr) (hd : dr.direction = .opening) (hdone : ∀ leaf, dr.phase leaf = .done) : Forced (g.endDrive dr) := by
  have hstill : g.Still := fun leaf => (hshape.1.phase leaf).idle (by rw [hdone leaf]; nofun)
  have hpos (leaf : Leaf) : ((g.endDrive dr).motor leaf).position = 255 := by
    have hr := hl leaf
    rw [hdone leaf, hd] at hr
    rw [Gate.endDrive_motor, hstill.stopBoth]
    exact Motor.position_of_remaining hr
  exact Or.inl ⟨hpos .a, hpos .b⟩

/-- Passing over a leaf does not change what the drive is for. -/
theorem goal_afterLeaf {g : Gate} {dr : Drive} (h : dr.direction = .opening ∨ g.controls.command = some .open) (now : Instant)
    (leaf : Leaf) : Goal g (.afterLeaf dr now leaf) := by
  refine Point.afterLeaf_rule h (fun hd => Or.inr ⟨rfl, ?_⟩) (fun _ _ => h) leaf
  rcases h with h | h
  · exact Or.inr (Or.inr ⟨h, (nextDeadline_eq_none_iff dr).mp hd⟩)
  · exact Or.inl h

section Steps

variable {g : Gate}

/-- What is in the slot is an OPEN. -/
theorem Pursued.open_of_slot {p : Point} (h : Pursued g p) {c : GateCommand} (hc : g.controls.command = some c) : c = .open := by
  rcases h.slot with hn | ho
  · cases hn.symm.trans hc
  · exact Option.some.inj (hc.symm.trans ho)

/-- At rest with nothing pending, the forced OPEN is in the slot, or the gate is where it is to be. -/
theorem Pursued.goal_of_listens {w : Await} (h : Pursued g (.await w)) (hshape : Shape g (.await w)) (hw : w.Listens g) :
    g.pending = none ∧ (g.controls.command = some .open ∨ Forced g) := by
  have hgoal := h.goal
  have hp : g.pending = none := by
    cases w with
    | settled s => exact hw
    | idle => exact hshape.2
    | moving dr dl y => exact hw.elim
  have hat : g.controls.command = some .open ∨ g.pending = some .open ∨ Forced g := by
    cases w with
    | settled s => exact hgoal
    | idle => exact hgoal
    | moving dr dl y => exact hw.elim
  refine ⟨hp, hat.imp_right fun h => h.resolve_left ?_⟩
  rw [hp]
  nofun

/-- At rest, the command in the slot is taken. -/
theorem pursued_takeCommand {w : Await} {c : GateCommand} (h : Pursued g (.await w)) (hshape : Shape g (.await w)) (hw : w.Listens g)
    (hc : g.controls.command = some c) : Pursued g.takeCommand (.execute c) :=
  ⟨Or.inl rfl, fun _ hc' => (by cases hc'.symm.trans (h.goal_of_listens hshape hw).1), Or.inl (h.open_of_slot hc)⟩

/-- At rest, a reset is taken. -/
theorem pursued_takeReset {w : Await} (h : Pursued g (.await w)) (hshape : Shape g (.await w)) (hw : w.Listens g)
    (hc : g.controls.command = none) : Pursued g.takeWindLockReset (.ended none) := by
  have hforced : Forced g := (h.goal_of_listens hshape hw).2.resolve_left (by rw [hc]; nofun)
  exact ⟨h.slot, h.pending, Or.inr ⟨rfl, Or.inr hforced⟩⟩

/-- The task comes to rest. -/
theorem pursued_rest {w : Await} (h : Pursued g (.await w)) (hshape : Shape g (.await w)) (hw : w.Listens g) : Pursued g (.await .idle) :=
  ⟨h.slot, h.pending, (h.goal_of_listens hshape hw).2.imp_right Or.inr⟩

/-- A command is refused: an OPEN by light barrier 1 only. -/
theorem pursued_refuse {c : GateCommand} {d : Direction} (h : Pursued g (.execute c)) (hc : g.controls.resolveImpulse c = commandFor d)
    (hb : g.controls.blocked d ≠ none) : Pursued g (.ended none) := by
  refine ⟨h.slot, h.pending, Or.inr ⟨rfl, ?_⟩⟩
  rcases h.goal with rfl | ho
  · obtain rfl := eq_opening_of_resolve hc
    exact Or.inr (Or.inr (barrier1_of_blocked hb))
  · exact Or.inl ho

/-- A movement starts. -/
theorem pursued_begin {c : GateCommand} {d : Direction} (h : Pursued g (.execute c)) (hc : g.controls.resolveImpulse c = commandFor d) :
    Pursued (g.begin d) (.top ((g.begin d).initialDrive d)) := by
  refine ⟨h.slot, h.pending, ?_⟩
  rcases h.goal with rfl | ho
  · exact Or.inl (eq_opening_of_resolve hc)
  · exact Or.inr ho

/-- A STOP is not the forced OPEN, which is behind it. -/
theorem pursued_stop {c : GateCommand} (h : Pursued g (.execute c)) (hc : ∀ d, g.controls.resolveImpulse c ≠ commandFor d) :
    Pursued ((g.stopLeaf .a).stopLeaf .b) (.ended none) := by
  have ho : g.controls.command = some .open := h.goal.resolve_left fun he => by
    subst he
    exact hc .opening rfl
  have ho' : ((g.stopLeaf .a).stopLeaf .b).controls.command = some .open := by simpa using ho
  exact ⟨Or.inr ho', fun _ _ => Or.inr ho', Or.inr ⟨rfl, Or.inl ho'⟩⟩

/-- The movement is blocked: an opening by light barrier 1 only. -/
theorem pursued_block {dr : Drive} (h : Pursued g (.top dr)) (hb : g.controls.blocked dr.direction ≠ none) : Pursued g (.over dr none) := by
  refine ⟨h.slot, h.pending, Or.inr ⟨rfl, ?_⟩⟩
  rcases h.goal with hd | ho
  · rw [hd] at hb
    exact Or.inr (Or.inl (barrier1_of_blocked hb))
  · exact Or.inl ho

/-- Within a movement, the command in the slot is taken. -/
theorem pursued_taken {dr : Drive} {dl : Instant} {y : Bool} {p : Point} (hshape : Shape g (.await (.moving dr dl y)))
    (hgoal : Goal g.takeCommand p) : Pursued g.takeCommand p := by
  refine ⟨Or.inl rfl, fun c hc => ?_, hgoal⟩
  rw [Gate.takeCommand_pending, hshape.pending] at hc
  cases hc

/-- `drive` returns. -/
theorem pursued_finish {dr : Drive} {result : Option GateCommand} (h : Pursued g (.over dr result)) (hshape : Shape g (.over dr result))
    (hl : g.LeavesTimed dr) : Pursued (g.endDrive dr) (.ended result) := by
  have hcommand : (g.endDrive dr).controls.command = g.controls.command := by rw [Gate.endDrive_controls]
  have hbarrier : (g.endDrive dr).controls.barrier1Active = g.controls.barrier1Active := by rw [Gate.endDrive_controls]
  refine ⟨hcommand ▸ h.slot, fun c hc => ?_, ?_⟩
  · rw [Gate.endDrive_pending] at hc
    rw [hcommand]
    exact h.pending c hc
  · rcases h.goal with hr | ⟨hr, ho | hb | ⟨hd, hdone⟩⟩
    · exact Or.inl hr
    · exact Or.inr ⟨hr, Or.inl (hcommand.trans ho)⟩
    · exact Or.inr ⟨hr, Or.inr (Or.inr (hbarrier.trans hb))⟩
    · exact Or.inr ⟨hr, Or.inr (forced_of_done hshape hl hd hdone)⟩

/-- `step` returns, with what `drive` has handed back as pending. -/
theorem pursued_settle {result : Option GateCommand} (h : Pursued g (.ended result)) :
    Pursued (g.endStep result).gate (.await (g.endStep result).await) := by
  refine ⟨h.slot, fun c hc => ?_, ?_⟩
  · rw [Gate.endStep_pending] at hc
    rcases h.goal with hr | ⟨hr, -⟩
    · exact Or.inl (Option.some.inj (hc.symm.trans hr))
    · cases hc.symm.trans hr
  · rcases h.goal with hr | ⟨hr, ho | hf⟩
    · exact Or.inr (Or.inl hr)
    · exact Or.inl ho
    · exact Or.inr (Or.inr hf)

end Steps

/-- No block loses the forced OPEN. -/
theorem pursued_step {g g' : Gate} {p p' : Point} (hs : Step g p g' p') (hshape : Shape g p) (htimed : Timed g p)
    (h : Pursued g p) : Pursued g' p' := by
  obtain ⟨hslot, hpend, hgoal⟩ := id h
  cases hs with
  | @takePending s c hp => exact ⟨hslot, nofun, hpend c hp⟩
  | takeCommand hw hc => exact pursued_takeCommand h hshape hw hc
  | takeReset hw hc hr => exact pursued_takeReset h hshape hw hc
  | rest hw hc hr => exact pursued_rest h hshape hw
  | refuse hc hb => exact pursued_refuse h hc hb
  | begin hc hb => exact pursued_begin h hc
  | stop hc => exact pursued_stop h hc
  | block hb => exact pursued_block h hb
  | look hb => exact ⟨hslot, hpend, hgoal⟩
  | notDue hw => exact ⟨hslot, hpend, hgoal⟩
  | start hw hn hr =>
    refine ⟨by simpa using hslot, fun c hc => ?_, by simpa [Goal] using hgoal⟩
    rw [Gate.startLeaf_pending] at hc
    simpa using hpend c hc
  | skip hw hn hr => exact ⟨hslot, hpend, by simpa [Goal] using hgoal⟩
  | keep hw => exact ⟨hslot, hpend, goal_afterLeaf hgoal _ _⟩
  | complete hw hn =>
    refine ⟨by simpa using hslot, fun c hc => ?_, goal_afterLeaf (by simpa [Goal] using hgoal) _ _⟩
    rw [Gate.stopLeaf_pending] at hc
    simpa using hpend c hc
  | readClock => exact ⟨hslot, hpend, hgoal⟩
  | timer hd => exact ⟨hslot, hpend, hgoal⟩
  | sameCommand hc => exact pursued_taken hshape (Or.inl (commandFor_injective (h.open_of_slot hc)))
  | @interrupt dr dl y c hc hne =>
    obtain rfl := h.open_of_slot hc
    exact pursued_taken hshape (Or.inl rfl)
  | barrier hc hb => exact ⟨hslot, hpend, hgoal⟩
  | announce hc hb hr => exact ⟨hslot, hpend, hgoal⟩
  | suspend hc hb hr => exact ⟨hslot, hpend, hgoal⟩
  | finish => exact pursued_finish h hshape htimed.leaves
  | settle => exact pursued_settle h

/-- With an OPEN in the slot, the forced OPEN is not lost. -/
theorem pursued_of_open {g : Gate} {w : Await} (h : g.controls.command = some .open) : Pursued g (.await w) := by
  refine ⟨Or.inr h, fun _ _ => Or.inr h, ?_⟩
  cases w with
  | settled s => exact Or.inl h
  | idle => exact Or.inl h
  | moving dr dl y => exact Or.inr h

/-- A change that leaves the slot, the pending command and the positions alone, and does not clear light barrier 1, does not lose
the forced OPEN. -/
theorem Pursued.await_congr {g g' : Gate} {w : Await} (h : Pursued g (.await w))
    (hc : g'.controls.command = g.controls.command) (hp : g'.pending = g.pending) (ha : g'.a = g.a) (hb : g'.b = g.b)
    (h1 : g.controls.barrier1Active = true → g'.controls.barrier1Active = true) : Pursued g' (.await w) := by
  have hforced (hf : Forced g) : Forced g' := hf.imp (fun hpos => by rw [ha, hb]; exact hpos) h1
  refine ⟨by rw [hc]; exact h.slot, fun c hc' => by rw [hc]; exact h.pending c (hp ▸ hc'), ?_⟩
  have hgoal := h.goal
  cases w with
  | settled s => exact hgoal.imp hc.trans (.imp hp.trans hforced)
  | idle => exact hgoal.imp hc.trans (.imp hp.trans hforced)
  | moving dr dl y => exact hgoal.imp_right hc.trans

/-- While the wind lock is engaged, the forced OPEN is not lost. -/
def WindOk (g : Gate) (p : Point) : Prop :=
  (Shape g p ∧ Timed g p) ∧ (g.controls.windLocked = true → Pursued g p)

/-- Every step keeps the forced OPEN. -/
theorem windOk_step : Preserved WindOk := fun _ _ _ _ hs h =>
  ⟨timed_step hs h.1, fun hlock => pursued_step hs h.1.1 h.1.2 (h.2 ((inputs_step hs).windLocked.symm.trans hlock))⟩

/-- A call keeps the forced OPEN, or engages the wind lock with one. -/
theorem windOk_call (t : Task) (c : Call) (h : t.Holds WindOk) : (t.call c).Holds WindOk := by
  refine ⟨⟨shape_call t c h.1.1, timed_call t c h.1.2⟩, fun hlock => ?_⟩
  -- the wind lock was engaged before the call, unless the call engages it
  have kept (hl : t.gate.controls.windLocked = true) (hc : (c.apply t.gate.controls).command = t.gate.controls.command)
      (h1 : t.gate.controls.barrier1Active = true → (c.apply t.gate.controls).barrier1Active = true) :
      Pursued (t.call c).gate (.await t.await) :=
    (h.2 hl).await_congr hc rfl rfl rfl h1
  have send (command : GateCommand) (happly : c.apply t.gate.controls = t.gate.controls.sendUnlessLocked command) :
      Pursued (t.call c).gate (.await t.await) := by
    rcases t.gate.controls.sendUnlessLocked_cases command with ⟨hl, he⟩ | ⟨hl, he⟩
    · exact kept hl (by rw [happly, he]) (by rw [happly, he]; exact id)
    · have hlock' : (c.apply t.gate.controls).windLocked = true := hlock
      rw [happly, he] at hlock'
      cases hl.symm.trans hlock'
  cases c with
  | «open» => exact send .open rfl
  | close => exact send .close rfl
  | stop => exact send .stop rfl
  | impulse => exact send .impulse rfl
  | windTrigger => exact pursued_of_open rfl
  | resetWindLock => cases hlock
  | barrier1Set active =>
    rcases t.gate.controls.barrier1Set_cases active with ⟨hact, he⟩ | ⟨hact, hl, he⟩
    · have hl : t.gate.controls.windLocked = true := by
        have hlock' : (t.gate.controls.barrier1Set active).windLocked = true := hlock
        rw [he] at hlock'
        exact hlock'
      have ha : active = true := hact.resolve_right (by rw [hl]; nofun)
      exact kept hl (by rw [Call.apply, he]) (by rw [Call.apply, he]; exact fun _ => ha)
    · refine pursued_of_open ?_
      show (t.gate.controls.barrier1Set active).command = some .open
      rw [he]
      rfl
  | barrier2Set active => exact kept hlock rfl id
  | setBarrierBypass active => exact kept hlock rfl id

/-- Waiting for the next poll keeps the forced OPEN. -/
theorem windOk_wait (t : Task) (sleep : Duration) {lag : Nat → Duration} (hs : lag = steady) (h : t.Holds WindOk) :
    (t.wait sleep lag).Holds WindOk :=
  ⟨⟨shape_wait t sleep lag h.1.1, timed_wait t sleep hs h.1.2⟩, fun hlock => (h.2 hlock).await_congr rfl rfl rfl rfl id⟩

/-- It holds after boot: a lock that is restored forces the gate open as well. -/
theorem windOk_boot {a b : MotorSettings} (locked : Bool) (ha : ticksPerMilli ≤ a.endStopOverrun)
    (hb : ticksPerMilli ≤ b.endStopOverrun) : (boot [] a b locked).Holds WindOk := by
  refine ⟨⟨shape_boot [] a b locked, timed_boot [] locked ha hb⟩, fun hlock => ?_⟩
  obtain rfl : locked = true := hlock
  exact ⟨Or.inl rfl, fun c hc => Or.inl (Option.some.inj hc).symm, Or.inr (Or.inl rfl)⟩

end WindAux

open WindAux

/-- The wind lock forces the gate open, in every run of calls after boot and polls with one reading of the clock each, for every
setting of the leaves with an overrun of at least a millisecond, every pair of restored positions and either restored wind lock:
whenever the wind lock is engaged and the gate is idle, with nothing pending and nothing in the slot, both leaves are open or light
barrier 1 is interrupted. -/
theorem wind_lock_opens (a b : MotorSettings) (locked : Bool) (events : List Event) (ha : ticksPerMilli ≤ a.endStopOverrun)
    (hb : ticksPerMilli ≤ b.endStopOverrun) (he : ∀ e ∈ events, e.Steady) :
    let t := after [] a b locked events
    t.gate.controls.windLocked = true → t.await = .idle ∨ t.Settled → t.gate.pending = none →
      t.gate.controls.command = none →
        (t.gate.a.position = 255 ∧ t.gate.b.position = 255) ∨ t.gate.controls.barrier1Active = true := by
  intro t hlock hidle hp hc
  have hok : Allowed Task.next (fun _ => Event.Steady) (boot [] a b locked) events := allowed_of_forall he _
  have hwind : t.Holds WindOk :=
    windOk_step.run (fun t c _ h => windOk_call t c h) (fun t d lag hs h => windOk_wait t d hs h) (windOk_boot locked ha hb) hok
  have hgoal : t.gate.controls.command = some .open ∨ t.gate.pending = some .open ∨ Forced t.gate := by
    have hgoal := (hwind.2 hlock).goal
    rcases hidle with hi | ⟨s, hi⟩
    · rw [hi] at hgoal
      exact hgoal
    · rw [hi] at hgoal
      exact hgoal
  exact (hgoal.resolve_left (by rw [hc]; nofun)).resolve_left (by rw [hp]; nofun)

/-- The installation, booted closed with the wind lock engaged, once it has opened. -/
theorem wind_lock_opens_boot :
    let t := after [] (settingsOf leafA 0) (settingsOf leafB 0) true
      [.poll 0 steady, .poll (fromSecs 3) steady, .poll (fromSecs 13) steady, .poll (fromSecs 3) steady, .poll 0 steady]
    t.gate.controls.windLocked = true ∧ t.await = .idle ∧
      ((t.gate.a.position = 255 ∧ t.gate.b.position = 255) ∨ t.gate.controls.barrier1Active = true) :=
  ⟨by decide +kernel, by decide +kernel,
    wind_lock_opens (settingsOf leafA 0) (settingsOf leafB 0) true _ (by decide) (by decide) (by simp [Event.Steady])
      (by decide +kernel) (Or.inl (by decide +kernel)) (by decide +kernel) (by decide +kernel)⟩

end GateLink
