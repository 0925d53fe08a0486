import GateLink.Lemmas.Firmware
import GateLink.Lemmas.Log

/-!
# The published state

What the firmware has announced is the current state of the controls whenever the gate is suspended with every signal taken, exactly as long
as the wind guard does not trip during an opening that goes on (`announced_current_iff`). There the OPEN of the wind guard is taken for a
command that changes nothing, and the wind lock that was engaged with it is not announced (`announced_stale`): a reset is announced while the
gate moves, a trip is not.

Of the three things that are published, cover state and bypass are announced with every change; a wind lock that is not has left a
signal behind (`Known`), or a trip was noted.
-/

namespace GateLink

open Machine

/-- Notes whether the wind guard has tripped and engaged the wind lock since the gate was polled last, and neither has the lock been reset
since nor has a command for the bypass published the state. -/
def Firmware.noteTrip (f : Firmware) (tripped : Bool) : Firmware.Event → Bool
  | .act (.input .windTrigger) => tripped || !f.controls.windLocked
  | .act (.input .resetWindLock) | .act (.execute .resetWindLock) | .act (.execute (.setBarrierBypass _)) => false
  | .poll _ _ => if f.stage = .step then false else tripped
  | .act _ | .locked | .saveReturns _ => tripped

/-- A poll does not overlook a trip of the wind guard: a movement that was under way when it tripped ends in this poll, unless a reset is
signalled too. -/
def Firmware.Heeds (s : Firmware × Bool) : Firmware.Event → Prop
  | .poll sleep lag => s.1.stage = .step → s.2 = true → s.1.controls.windLockReset = none →
      ∀ dr dl y, s.1.task.await = .moving dr dl y → (s.1.task.wait sleep lag).Halts
  | _ => True

/-- With every signal taken, what was announced last is the current state. -/
def Firmware.Current (f : Firmware) : Prop := f.Quiet → f.announced = stateMessages f.controls

namespace AnnouncedAux

/-- What is announced once the trace has grown from `old`. -/
def told (announced : List (String × String)) (old trace : List Entry) : List (String × String) :=
  Firmware.announce announced (trace.take (trace.length - old.length))

variable {announced : List (String × String)} {old trace : List Entry}

/-- A trace that has not grown announces nothing new. -/
theorem told_self (announced : List (String × String)) (trace : List Entry) : told announced trace trace = announced := by
  simp [told, Firmware.announce]

/-- One entry more announces the state that it records, if it is a notify. -/
theorem told_cons (h : old <:+ trace) (e : Entry) :
    told announced old (e :: trace) = if e.output = .notify then stateMessages e.controls else told announced old trace := by
  have hlen : (e :: trace).length - old.length = (trace.length - old.length) + 1 := by
    have := h.length_le
    rw [List.length_cons]
    omega
  unfold told Firmware.announce
  rw [hlen, List.take_succ_cons, List.find?_cons]
  by_cases he : e.output = .notify <;> simp [he]

/-- A notify at the end announces the state that it records. -/
theorem told_notify (h : old <:+ trace) {e : Entry} (he : e.output = .notify) :
    told announced old (e :: trace) = stateMessages e.controls := by
  rw [told_cons h, if_pos he]

/-- Entries that announce nothing. -/
theorem told_adds {new : List Entry} (h : old <:+ trace) (ha : Trace.Adds (fun e => e.output ≠ .notify) trace new) :
    told announced old new = told announced old trace := by
  obtain ⟨fresh, rfl, hf⟩ := ha
  induction fresh with
  | nil => rfl
  | cons e fresh ih =>
    obtain ⟨he, hf⟩ := List.forall_mem_cons.mp hf
    rw [List.cons_append, told_cons (h.trans (List.suffix_append _ _)), if_neg he]
    exact ih hf

/-- What is announced tells of everything that was published, but for a wind lock that has left a signal behind. -/
def Known (announced : List (String × String)) (c : Controls) : Prop :=
  ∃ locked, announced = messagesOf c.coverState locked c.barrierBypass ∧ c.Signalled locked

/-- The current state tells of everything. -/
theorem known_of_eq {c : Controls} (h : announced = stateMessages c) : Known announced c := ⟨c.windLocked, h, Or.inl rfl⟩

/-- With every signal taken, what is announced is the state. -/
theorem Known.exact {c : Controls} (h : Known announced c) (hc : c.command = none) (hr : c.windLockReset = none) :
    announced = stateMessages c := by
  obtain ⟨locked, rfl, hl⟩ := h
  rw [hl.exact hc hr]
  rfl

/-- An engaged wind lock is announced, or a reset is signalled. -/
def Heard (announced : List (String × String)) (c : Controls) : Prop :=
  c.windLocked = true → c.windLockReset = none → announced = stateMessages c

/-! ## Between two awaits -/

/-- A step that returns announces the state. -/
def Settles (announced : List (String × String)) (old : List Entry) (g : Gate) (p : Point) : Prop :=
  old <:+ g.board.trace ∧ ∀ s, p = .await (.settled s) → told announced old g.board.trace = stateMessages g.controls

/-- Within a step, only its return settles, and it notifies. -/
theorem settles_step (announced : List (String × String)) (old : List Entry) : PreservedWithin (Settles announced old) := by
  intro g p g' p' h hinner hs
  refine ⟨h.1.trans (trace_suffix_step hs), ?_⟩
  cases hs with
  | settle => exact fun _ _ => told_notify h.1 rfl
  | @keep dr leaf now hp =>
    exact Point.afterLeaf_rule (P := fun p => ∀ s, p = .await (.settled s) → _) nofun (fun _ => nofun) (fun _ _ => nofun) leaf
  | @complete dr leaf now at' hp hn =>
    exact Point.afterLeaf_rule (P := fun p => ∀ s, p = .await (.settled s) → _) nofun (fun _ => nofun) (fun _ _ => nofun) leaf
  | takePending | takeCommand | takeReset | rest | readClock | timer | sameCommand | interrupt | barrier | announce | suspend =>
    exact absurd rfl (hinner _)
  | _ => exact nofun

/-- A poll with which a step returns announces the state. -/
theorem told_of_settled {t : Task} (h : old <:+ t.gate.board.trace) (hs : t.poll.Settled) :
    told announced old t.poll.gate.board.trace = stateMessages t.poll.gate.controls := by
  refine (settles_step announced old).poll_rule (P := fun s => old <:+ s.gate.board.trace)
    (Q := fun r => r.Settled → told announced old r.gate.board.trace = stateMessages r.gate.controls) h (fun s hsuf => ?_) (fun r hr => ?_)
    (fun s s' _ hsus hs' => ?_) hs
  · exact ⟨fun g p hstep hinner => ⟨hsuf.trans (trace_suffix_step hstep), fun _ hp => absurd hp (hinner _)⟩,
      fun _ _ _ g p hstep hinner => ⟨(show old <:+ s.gate.tick.board.trace from hsuf).trans (trace_suffix_step hstep),
        fun _ hp => absurd hp (hinner _)⟩⟩
  · exact ⟨fun _ ⟨sn, ha⟩ => hr.2 sn (congrArg Point.await ha), fun _ => hr.1⟩
  · obtain ⟨sn, ha⟩ := hs'
    obtain ⟨-, -, ⟨-, -, hidle⟩ | ⟨_, _, _, -, hmoving⟩⟩ := hsus
    · cases ha.symm.trans hidle
    · cases ha.symm.trans hmoving

/-- Within a movement nothing is announced and the controls are left alone. -/
def Quietly (announced m : List (String × String)) (old : List Entry) (c : Controls) (g : Gate) (p : Point) : Prop :=
  old <:+ g.board.trace ∧
    match p with
    | .await (.moving _ _ _) | .top _ | .starting _ _ _ | .stopping _ _ _ =>
      told announced old g.board.trace = m ∧ g.controls = c
    | .over _ _ | .ended _ | .await (.settled _) => True
    | _ => False

/-- Steps within a movement write pins at most, and no entry of theirs is a notify. -/
theorem quietly_step (announced m : List (String × String)) (old : List Entry) (c : Controls) :
    PreservedWithin (Quietly announced m old c) := by
  intro g p g' p' h hinner hs
  have hsuffix := h.1.trans (trace_suffix_step hs)
  have hwrites {leaf : Leaf} (mo : Motor leaf) : Trace.Adds (fun e => e.output ≠ .notify) g.board.trace (mo.stop g.board).2.trace := by
    cases hr : mo.state with
    | idle =>
      rw [Motor.stop_of_idle hr]
      exact .refl _ _
    | running d t =>
      rw [Motor.stop_of_running hr]
      exact .cons (.cons (.refl _ _) nofun) nofun
  have hstart {leaf : Leaf} (mo : Motor leaf) (d : Direction) :
      Trace.Adds (fun e => e.output ≠ .notify) g.board.trace (mo.start d g.board).2.trace := by
    have hsettle : Trace.Adds (fun e => e.output ≠ .notify) g.board.trace (mo.settle g.board).2.trace := hwrites mo
    cases d <;> refine .cons (.cons hsettle ?_) ?_ <;> nofun
  have hafter {g' : Gate} (dr : Drive) (now : Instant) (leaf : Leaf) (hsuf : old <:+ g'.board.trace)
      (ht : told announced old g'.board.trace = m) (hc : g'.controls = c) :
      Quietly announced m old c g' (.afterLeaf dr now leaf) :=
    Point.afterLeaf_rule (P := Quietly announced m old c g') ⟨hsuf, ht, hc⟩ (fun _ => ⟨hsuf, trivial⟩)
      (fun _ _ => ⟨hsuf, ht, hc⟩) leaf
  cases hs with
  | refuse | begin | stop => exact h.2.elim
  | block hb => exact ⟨hsuffix, trivial⟩
  | look hb => exact h
  | notDue hp => exact h
  | @start dr leaf now at' r hp hn hr =>
    refine ⟨hsuffix, ?_, ?_⟩
    · rw [Gate.startLeaf_board, told_adds h.1 (hstart _ _)]
      exact h.2.1
    · rw [Gate.startLeaf_controls]
      exact h.2.2
  | skip hp hn hr => exact h
  | keep hp => exact hafter _ _ _ h.1 h.2.1 h.2.2
  | @complete dr leaf now at' hp hn =>
    refine hafter _ _ _ hsuffix ?_ ?_
    · rw [Gate.stopLeaf_board, told_adds h.1 (hwrites _)]
      exact h.2.1
    · rw [Gate.stopLeaf_controls]
      exact h.2.2
  | finish | settle => exact ⟨hsuffix, trivial⟩
  | takePending | takeCommand | takeReset | rest | readClock | timer | sameCommand | interrupt | barrier | announce | suspend =>
    exact absurd rfl (hinner _)

/-! ## A turn of a poll -/

/-- A turn of the poll starts from what is known, with an engaged wind lock heard of within a movement. -/
def Turning (announced : List (String × String)) (old : List Entry) (t : Task) : Prop :=
  old <:+ t.gate.board.trace ∧ Known (told announced old t.gate.board.trace) t.gate.controls ∧
    ∀ dr dl y, t.await = .moving dr dl y → Heard (told announced old t.gate.board.trace) t.gate.controls

/-- The loop of `drive` announces nothing and leaves the controls alone, if it goes on. -/
theorem driveLoop_quiet (announced : List (String × String)) {g : Gate} {dr : Drive} (h : old <:+ g.board.trace) (hn : ¬(g.driveLoop dr).Settled) :
    (∃ dr' dl y, (g.driveLoop dr).await = .moving dr' dl y) ∧ old <:+ (g.driveLoop dr).gate.board.trace ∧
      told announced old (g.driveLoop dr).gate.board.trace = told announced old g.board.trace ∧
        (g.driveLoop dr).gate.controls = g.controls := by
  have hquiet : (g.driveLoop dr).Holds (Quietly announced (told announced old g.board.trace) old g.controls) :=
    (quietly_step _ _ _ _).driveLoop ⟨h, rfl, rfl⟩
  unfold Task.Holds at hquiet
  cases ha : (g.driveLoop dr).await with
  | settled s => exact absurd ⟨s, ha⟩ hn
  | idle =>
    rw [ha] at hquiet
    exact hquiet.2.elim
  | moving dr' dl' y' =>
    rw [ha] at hquiet
    exact ⟨⟨dr', dl', y', rfl⟩, hquiet⟩

/-- What is known and heard of stays so. -/
theorem driveLoop_turning {g : Gate} {dr : Drive} (h : old <:+ g.board.trace)
    (hknown : Known (told announced old g.board.trace) g.controls) (hheard : Heard (told announced old g.board.trace) g.controls)
    (hn : ¬(g.driveLoop dr).Settled) : Turning announced old (g.driveLoop dr) := by
  obtain ⟨-, hsuf, htold, hcontrols⟩ := driveLoop_quiet announced h hn
  refine ⟨hsuf, ?_, fun _ _ _ _ => ?_⟩
  · rw [htold, hcontrols]
    exact hknown
  · rw [htold, hcontrols]
    exact hheard

/-- The state was announced, and the loop of `drive` announces nothing, if it goes on. -/
theorem driveLoop_announced {g : Gate} {dr : Drive} (h : old <:+ g.board.trace)
    (htold : told announced old g.board.trace = stateMessages g.controls) (hn : ¬(g.driveLoop dr).Settled) :
    Turning announced old (g.driveLoop dr) :=
  driveLoop_turning h (known_of_eq htold) (fun _ _ => htold) hn

/-- A step that begins announces the state. -/
theorem execute_turning {g : Gate} (h : old <:+ g.board.trace) (command : GateCommand) (hn : ¬(g.execute command).Settled) :
    Turning announced old (g.execute command) := by
  have drives (d : Direction) (hn : ¬(g.drive d).Settled) : Turning announced old (g.drive d) := by
    unfold Gate.drive at hn ⊢
    split at hn
    · exact absurd ⟨_, rfl⟩ hn
    · have hsuf : old <:+ (g.begin d).board.trace := h.trans ((List.suffix_cons _ _).trans (List.suffix_cons _ _))
      have htold : told announced old (g.begin d).board.trace = stateMessages (g.begin d).controls :=
        told_notify (h.trans (List.suffix_cons _ _)) rfl
      exact driveLoop_announced hsuf htold hn
  unfold Gate.execute at hn ⊢
  split at hn
  · exact drives .opening hn
  · exact drives .closing hn
  · exact absurd ⟨_, rfl⟩ hn
  · exact absurd ⟨_, rfl⟩ hn

/-- The state is announced. -/
def Told (announced : List (String × String)) (old : List Entry) (t : Task) : Prop :=
  told announced old t.gate.board.trace = stateMessages t.gate.controls

/-- What a turn comes to: the step is over, or it goes on, or the gate is suspended with the state announced. -/
def Goes (announced : List (String × String)) (old : List Entry) (turn : Turn Task) : Prop :=
  (∃ r : Task, turn = r.proceed ∧ (¬r.Settled → Turning announced old r)) ∨ ∃ s, turn = .halt s ∧ Told announced old s

/-- Within a movement, a turn that finds the timer not due. -/
theorem driveSelectSignals_goes {g : Gate} {dr : Drive} {dl : Instant} (hsuf : old <:+ g.board.trace)
    (hknown : Known (told announced old g.board.trace) g.controls) (hheard : Heard (told announced old g.board.trace) g.controls) :
    Goes announced old (g.driveSelectSignals dr dl) := by
  unfold Gate.driveSelectSignals
  split
  · rename_i c hc
    split
    · refine Or.inl ⟨_, rfl, driveLoop_turning (g := g.takeCommand) hsuf ?_ hheard⟩
      -- only the OPEN of the wind guard is taken here without being announced
      obtain ⟨locked, hm, hlock | hreset | ⟨hlock, -⟩⟩ := hknown
      · exact ⟨locked, hm, Or.inl hlock⟩
      · exact ⟨locked, hm, Or.inr (Or.inl hreset)⟩
      · by_cases hreset : g.controls.windLockReset = none
        · exact known_of_eq (hheard hlock hreset)
        · exact ⟨locked, hm, Or.inr (Or.inl hreset)⟩
    · exact Or.inl ⟨_, rfl, fun hn => absurd ⟨_, rfl⟩ hn⟩
  · rename_i hc
    split
    · exact Or.inl ⟨_, rfl, driveLoop_turning (g := g.takeBarrierChanged) hsuf hknown hheard⟩
    · split
      · have htold : told announced old (g.takeWindLockReset.record .notify).board.trace =
            stateMessages (g.takeWindLockReset.record .notify).controls := told_notify hsuf rfl
        exact Or.inl ⟨_, rfl, driveLoop_announced (hsuf.trans (List.suffix_cons _ _)) htold⟩
      · rename_i hr
        exact Or.inr ⟨_, rfl, hknown.exact hc hr⟩

/-- A gate at rest begins a step, ends one, or finds nothing to do. -/
theorem idleSelect_goes {g : Gate} (hsuf : old <:+ g.board.trace) (hknown : Known (told announced old g.board.trace) g.controls) :
    Goes announced old g.idleSelect := by
  unfold Gate.idleSelect
  split
  · rename_i c _
    exact Or.inl ⟨_, rfl, execute_turning (g := g.takeCommand) hsuf c⟩
  · rename_i hc
    split
    · exact Or.inl ⟨_, rfl, fun hn => absurd ⟨_, rfl⟩ hn⟩
    · rename_i hr
      exact Or.inr ⟨_, rfl, hknown.exact hc hr⟩

/-- Every turn of the poll is such a turn. -/
theorem advance_goes {t : Task} (h : Turning announced old t) : Goes announced old t.advance := by
  obtain ⟨hsuf, hknown, hheard⟩ := h
  unfold Task.advance
  split
  · split
    · rename_i c _
      exact Or.inl ⟨_, rfl, execute_turning (g := { t.gate with pending := none }) hsuf c⟩
    · exact idleSelect_goes hsuf hknown
  · exact idleSelect_goes hsuf hknown
  · rename_i dr dl y ha
    unfold Gate.driveSelect
    split
    · split
      · exact Or.inl ⟨_, rfl, driveLoop_turning (g := t.gate.tick) hsuf hknown (hheard dr dl y ha)⟩
      · exact driveSelectSignals_goes (g := t.gate.tick) hsuf hknown (hheard dr dl y ha)
    · exact driveSelectSignals_goes hsuf hknown (hheard dr dl y ha)

/-- A poll that has heard of an engaged wind lock ends with the state announced. -/
theorem told_poll {t : Task} (h : Turning announced old t) : Told announced old t.poll := by
  by_cases hs : t.poll.Settled
  · exact told_of_settled h.1 hs
  · refine (Task.poll_rule (P := Turning announced old) (Q := fun r => r.Settled ∨ Told announced old r) h fun s hs => ?_).resolve_left hs
    rcases advance_goes hs with ⟨r, he, hr⟩ | ⟨s', he, htold⟩
    · exact Or.inl ⟨r, he, Or.inl, hr⟩
    · exact Or.inr ⟨s', he, Or.inr htold⟩

/-- Within a movement that goes on, and with no reset signalled, a poll announces nothing, and nothing that is published changes. -/
def Untold (announced : List (String × String)) (old : List Entry) (m state : List (String × String)) (s : Task) : Prop :=
  old <:+ s.gate.board.trace ∧ told announced old s.gate.board.trace = m ∧ stateMessages s.gate.controls = state ∧
    s.gate.controls.windLockReset = none

/-- Such a movement ends, or goes on in the same way. -/
def Quiets (announced : List (String × String)) (old : List Entry) (m state : List (String × String)) (r : Task) : Prop :=
  ¬r.Settled → Untold announced old m state r ∧ ∃ dr dl y, r.await = .moving dr dl y

section Quiets

variable {m state : List (String × String)} {t : Task} {g : Gate}

/-- The loop of `drive` is quiet. -/
theorem driveLoop_quiets (h : Untold announced old m state { t with gate := g }) (dr : Drive) :
    Quiets announced old m state (g.driveLoop dr) := by
  intro hn
  obtain ⟨hsuf, htold, hstate, hreset⟩ := h
  obtain ⟨hmoves, hsuf', htold', hcontrols⟩ := driveLoop_quiet announced hsuf hn
  refine ⟨⟨hsuf', htold'.trans htold, ?_, ?_⟩, hmoves⟩
  · rw [hcontrols]
    exact hstate
  · rw [hcontrols]
    exact hreset

/-- Taking a signal in a movement is quiet, as long as no reset is signalled. -/
theorem driveSelectSignals_quiets (h : Untold announced old m state { t with gate := g }) (dr : Drive) (dl : Instant) :
    (∃ r : Task, g.driveSelectSignals dr dl = r.proceed ∧ Quiets announced old m state r) ∨
      ∃ s, g.driveSelectSignals dr dl = .halt s ∧ Untold announced old m state s := by
  unfold Gate.driveSelectSignals
  split
  · split
    · exact Or.inl ⟨_, rfl, driveLoop_quiets (t := t) (g := g.takeCommand) h dr⟩
    · exact Or.inl ⟨_, rfl, fun hn => absurd ⟨_, rfl⟩ hn⟩
  · split
    · exact Or.inl ⟨_, rfl, driveLoop_quiets (t := t) (g := g.takeBarrierChanged) h dr⟩
    · split
      · rename_i hr
        cases h.2.2.2.symm.trans hr
      · exact Or.inr ⟨_, rfl, h⟩

/-- A turn within a movement is quiet, whether the timer is due or not. -/
theorem driveSelect_quiets (h : Untold announced old m state t) (dr : Drive) (dl : Instant) (y : Bool) :
    (∃ r : Task, t.gate.driveSelect dr dl y = r.proceed ∧ Quiets announced old m state r) ∨
      ∃ s, t.gate.driveSelect dr dl y = .halt s ∧ Untold announced old m state s := by
  unfold Gate.driveSelect
  split
  · split
    · exact Or.inl ⟨_, rfl, driveLoop_quiets (t := t) (g := t.gate.tick) h dr⟩
    · exact driveSelectSignals_quiets (t := t) (g := t.gate.tick) h dr dl
  · exact driveSelectSignals_quiets (t := t) h dr dl

/-- So it is until the end of the poll. -/
theorem untold_poll (h : Untold announced old m state t) (hmoves : ∃ dr dl y, t.await = .moving dr dl y) (hn : ¬t.poll.Settled) :
    Untold announced old m state t.poll := by
  refine (Task.poll_rule (P := fun s => Untold announced old m state s ∧ ∃ dr dl y, s.await = .moving dr dl y)
    (Q := fun r => r.Settled ∨ Untold announced old m state r) ⟨h, hmoves⟩ fun s hs => ?_).resolve_left hn
  obtain ⟨hs, dr, dl, y, ha⟩ := hs
  have hadvance : s.advance = s.gate.driveSelect dr dl y := by
    unfold Task.advance
    rw [ha]
  rw [hadvance]
  rcases driveSelect_quiets hs dr dl y with ⟨r, he, hr⟩ | ⟨s', he, hs'⟩
  · exact Or.inl ⟨r, he, Or.inl, hr⟩
  · exact Or.inr ⟨s', he, Or.inr hs'⟩

end Quiets

/-! ## A run -/

/-- A call other than one for the bypass changes nothing that is published but the wind lock. -/
theorem published_call (c : Controls) (call : Call) (hbypass : ∀ active, call ≠ .setBarrierBypass active) :
    (call.apply c).coverState = c.coverState ∧ (call.apply c).barrierBypass = c.barrierBypass := by
  have send (command : GateCommand) :
      (c.sendUnlessLocked command).coverState = c.coverState ∧ (c.sendUnlessLocked command).barrierBypass = c.barrierBypass := by
    obtain ⟨-, he⟩ | ⟨-, he⟩ := c.sendUnlessLocked_cases command <;> rw [he] <;> exact ⟨rfl, rfl⟩
  cases call with
  | «open» => exact send .open
  | close => exact send .close
  | stop => exact send .stop
  | impulse => exact send .impulse
  | windTrigger | resetWindLock | barrier2Set => exact ⟨rfl, rfl⟩
  | barrier1Set active =>
    simp only [Call.apply]
    obtain ⟨-, he⟩ | ⟨-, -, he⟩ := c.barrier1Set_cases active <;> rw [he] <;> exact ⟨rfl, rfl⟩
  | setBarrierBypass active => exact absurd rfl (hbypass active)

/-- A call is announced, or has left a signal behind. -/
theorem known_call {c : Controls} (h : Known announced c) (call : Call) (hbypass : ∀ active, call ≠ .setBarrierBypass active) :
    Known announced (call.apply c) := by
  obtain ⟨locked, rfl, hl⟩ := h
  obtain ⟨hcover, harmed⟩ := published_call c call hbypass
  exact ⟨locked, by rw [hcover, harmed], hl.call call⟩

/-- An action is announced, or has left a signal behind. -/
theorem known_act {f : Firmware} (h : Known f.announced f.controls) (a : Action) :
    Known (f.act a).announced (f.act a).controls := by
  cases a with
  | input i => exact known_call h i.call (by cases i <;> nofun)
  | execute command =>
    cases command with
    | setBarrierBypass active => exact known_of_eq rfl
    | «open» => exact known_call h .open nofun
    | close => exact known_call h .close nofun
    | stop => exact known_call h .stop nofun
    | resetWindLock => exact known_call h .resetWindLock nofun

/-- A call that does not set the wind lock leaves its reset alone. -/
theorem reset_call (c : Controls) {call : Call} (hlocks : call.locks = none) : (call.apply c).windLockReset = c.windLockReset := by
  have send (command : GateCommand) : (c.sendUnlessLocked command).windLockReset = c.windLockReset := by
    obtain ⟨-, he⟩ | ⟨-, he⟩ := c.sendUnlessLocked_cases command
    · rw [he]
    · rw [he]
      rfl
  cases call with
  | «open» => exact send .open
  | close => exact send .close
  | stop => exact send .stop
  | impulse => exact send .impulse
  | windTrigger | resetWindLock => cases hlocks
  | barrier2Set | setBarrierBypass => rfl
  | barrier1Set active =>
    simp only [Call.apply]
    obtain ⟨-, he⟩ | ⟨-, -, he⟩ := c.barrier1Set_cases active
    · rw [he]
    · rw [he]
      rfl

/-- A trip has engaged the wind lock, and it is announced as off: no reset is signalled that would announce it. -/
def Stale (announced : List (String × String)) (c : Controls) : Prop :=
  c.windLockReset = none → c.windLocked = true ∧ announced = messagesOf c.coverState false c.barrierBypass

/-- What was announced is not the state then. -/
theorem Stale.ne_state {c : Controls} (h : Stale announced c) (hr : c.windLockReset = none) : announced ≠ stateMessages c := by
  obtain ⟨hlock, rfl⟩ := h hr
  rw [stateMessages, hlock]
  simp [messagesOf, onOff]

/-- What the firmware keeps as it runs, with the trip that is noted. -/
structure Kept (f : Firmware) (tripped : Bool) : Prop where
  known : Known f.announced f.controls
  heard : tripped = false → Heard f.announced f.controls
  stale : tripped = true → Stale f.announced f.controls

/-- It depends on nothing else of the firmware. -/
theorem Kept.congr {f f' : Firmware} {tripped : Bool} (h : Kept f tripped) (hannounced : f'.announced = f.announced)
    (hcontrols : f'.controls = f.controls) : Kept f' tripped := by
  refine ⟨?_, ?_, ?_⟩ <;> rw [hannounced, hcontrols]
  · exact h.known
  · exact h.heard
  · exact h.stale

/-- The state is announced, and no trip is to be noted. -/
theorem kept_of_told {f : Firmware} (h : f.announced = stateMessages f.controls) : Kept f false :=
  ⟨known_of_eq h, fun _ _ _ => h, nofun⟩

/-- A call that has nothing to do with what is published changes nothing that is kept. -/
theorem kept_call {f f' : Firmware} {tripped : Bool} (h : Kept f tripped) (call : Call) (hlocks : call.locks = none)
    (hbypass : ∀ active, call ≠ .setBarrierBypass active) (hcontrols : f'.controls = call.apply f.controls)
    (hannounced : f'.announced = f.announced) : Kept f' tripped := by
  obtain ⟨hcover, harmed⟩ := published_call f.controls call hbypass
  have hreset := reset_call f.controls hlocks
  have hlock : (call.apply f.controls).windLocked = f.controls.windLocked := by rw [windLocked_call, hlocks, Option.getD_none]
  refine ⟨?_, fun hn => ?_, fun hn => ?_⟩
  · rw [hcontrols, hannounced]
    exact known_call h.known call hbypass
  · unfold Heard stateMessages
    rw [hcontrols, hannounced, hlock, hreset, hcover, harmed]
    exact h.heard hn
  · unfold Stale
    rw [hcontrols, hannounced, hlock, hreset, hcover, harmed]
    exact h.stale hn

/-- The wind guard trips: a wind lock that is engaged with it is announced as off, unless a reset is signalled. -/
theorem kept_trip {f f' : Firmware} {tripped : Bool} (h : Kept f tripped) (hcontrols : f'.controls = f.controls.windTrigger)
    (hannounced : f'.announced = f.announced) : Kept f' (tripped || !f.controls.windLocked) := by
  refine ⟨?_, fun hn => ?_, fun hn hreset => ?_⟩
  · rw [hcontrols, hannounced]
    exact known_call h.known .windTrigger nofun
  · obtain ⟨hnot, hlock⟩ := Bool.or_eq_false_iff.mp hn
    have hon : f.controls.windLocked = true := by simpa using hlock
    intro _ hreset
    rw [hcontrols] at hreset ⊢
    rw [hannounced, h.heard hnot hon hreset, stateMessages, hon]
    rfl
  · rw [hcontrols] at hreset ⊢
    rw [hannounced]
    refine ⟨rfl, ?_⟩
    cases hlock : f.controls.windLocked with
    | false =>
      obtain ⟨locked, hm, heq | hsome | ⟨hon, -⟩⟩ := h.known
      · rw [hm, heq, hlock]
        rfl
      · exact absurd hreset hsome
      · cases hlock.symm.trans hon
    | true =>
      have htripped : tripped = true := by simpa [hlock] using hn
      exact (h.stale htripped hreset).2

/-- What is kept stays so in every action, with the trip that it makes. -/
theorem kept_act {f : Firmware} {tripped : Bool} (h : Kept f tripped) (a : Action) : Kept (f.act a) (f.noteTrip tripped (.act a)) := by
  cases a with
  | input i =>
    cases i with
    | windTrigger => exact kept_trip h rfl rfl
    | resetWindLock => exact ⟨known_act h.known _, fun _ hlock => Bool.noConfusion hlock, nofun⟩
    | impulse => exact kept_call h .impulse rfl nofun rfl rfl
    | barrier1Set active => exact kept_call h (.barrier1Set active) rfl nofun rfl rfl
    | barrier2Set active => exact kept_call h (.barrier2Set active) rfl nofun rfl rfl
  | execute command =>
    cases command with
    | setBarrierBypass active => exact kept_of_told rfl
    | resetWindLock => exact ⟨known_act h.known _, fun _ hlock => Bool.noConfusion hlock, nofun⟩
    | «open» => exact kept_call h .open rfl nofun rfl rfl
    | close => exact kept_call h .close rfl nofun rfl rfl
    | stop => exact kept_call h .stop rfl nofun rfl rfl

/-- A poll announces what its notifies announce. -/
theorem pollStep_announced (f : Firmware) (sleep : Duration) (lag : Nat → Duration) :
    (f.pollStep sleep lag).announced =
      told f.announced f.task.gate.board.trace (f.task.wait sleep lag).poll.gate.board.trace := by
  unfold Firmware.pollStep
  simp only
  split
  · split <;> rfl
  · rfl

/-- A poll that overlooks no trip keeps it, with no trip noted any more. -/
theorem kept_poll {f : Firmware} {tripped : Bool} (h : Kept f tripped) {sleep : Duration} {lag : Nat → Duration}
    (he : Firmware.Heeds (f, tripped) (.poll sleep lag)) : Kept (f.poll sleep lag) (f.noteTrip tripped (.poll sleep lag)) := by
  unfold Firmware.poll Firmware.noteTrip
  split
  · rename_i hstage
    rw [if_pos hstage]
    refine kept_of_told ?_
    have hcontrols : (f.pollStep sleep lag).controls = (f.task.wait sleep lag).poll.gate.controls :=
      congrArg (·.gate.controls) (f.pollStep_spec sleep lag).task
    rw [pollStep_announced, hcontrols]
    have hsuf : f.task.gate.board.trace <:+ (f.task.wait sleep lag).gate.board.trace := List.suffix_refl _
    by_cases hheard : ∀ dr dl y, f.task.await = .moving dr dl y → Heard f.announced f.controls
    · have htrace : told f.announced f.task.gate.board.trace (f.task.wait sleep lag).gate.board.trace = f.announced := told_self _ _
      refine told_poll ⟨hsuf, ?_, fun dr dl y ha => ?_⟩
      · rw [htrace]
        exact h.known
      · rw [htrace]
        exact hheard dr dl y ha
    · -- the trip was not heard of: the movement that is under way ends
      obtain ⟨dr, dl, y, ha, hunheard⟩ : ∃ dr dl y, f.task.await = .moving dr dl y ∧ ¬Heard f.announced f.controls := by
        simpa only [not_forall, exists_prop] using hheard
      have htripped : tripped = true := by
        cases tripped with
        | true => rfl
        | false => exact absurd (h.heard rfl) hunheard
      have hreset : f.controls.windLockReset = none := by
        by_contra hreset
        exact hunheard fun _ hnone => absurd hnone hreset
      have hhalts : (f.task.wait sleep lag).Halts := he hstage htripped hreset dr dl y ha
      refine told_of_settled hsuf ?_
      have hreturns := (f.task.wait sleep lag).poll_returns
      unfold Task.Returns at hreturns
      split at hreturns
      · rename_i s hsettled
        exact ⟨s, hsettled⟩
      · exact absurd ha (hreturns.2 dr dl y)
      · rename_i dr' dl' y' hmoving
        exact absurd hmoving (Task.halts_poll hhalts dr' dl' y')
  · rename_i hstage
    rw [if_neg hstage]
    exact h

/-- Every event that overlooks no trip keeps it. -/
theorem kept_next (f : Firmware) (tripped : Bool) (e : Firmware.Event) (he : True ∧ Firmware.Heeds (f, tripped) e) (h : Kept f tripped) :
    Kept (f.next e) (f.noteTrip tripped e) := by
  cases e with
  | act a => exact kept_act h a
  | poll sleep lag => exact kept_poll h he.2
  | locked =>
    show Kept f.locked tripped
    unfold Firmware.locked
    split <;> exact h.congr rfl rfl
  | saveReturns result =>
    show Kept (f.saveReturns result) tripped
    unfold Firmware.saveReturns
    split
    · split
      · exact h.congr rfl rfl
      · split <;> exact h.congr rfl rfl
    · exact h.congr rfl rfl

/-- With it, what is published is current. -/
theorem Kept.current {f : Firmware} {tripped : Bool} (h : Kept f tripped) : f.Current :=
  fun hquiet => h.known.exact hquiet.2.2.1 hquiet.2.2.2.2

/-- A movement that goes on through the poll leaves a trip unannounced, with every signal taken. -/
theorem heeds_of_current {f : Firmware} {tripped : Bool} {sleep : Duration} {lag : Nat → Duration} (h : Kept f tripped)
    (hcurrent : (f.poll sleep lag).Current) : Firmware.Heeds (f, tripped) (.poll sleep lag) := by
  intro hs htripped hreset dr dl y ha
  by_contra hhalts
  obtain ⟨dr', dl', y', hmoving⟩ := Task.moving_poll hhalts
  have hn := Task.not_settled hmoving nofun
  have hpoll : f.poll sleep lag = f.pollStep sleep lag := by
    unfold Firmware.poll
    rw [hs]
  have hp := f.pollStep_spec sleep lag
  have hcontrols : (f.pollStep sleep lag).controls = (f.task.wait sleep lag).poll.gate.controls := congrArg (·.gate.controls) hp.task
  obtain ⟨-, htold, hstate, -⟩ : Untold f.announced f.task.gate.board.trace f.announced (stateMessages f.controls)
      (f.task.wait sleep lag).poll :=
    untold_poll ⟨List.suffix_refl _, told_self _ _, rfl, hreset⟩ ⟨dr, dl, y, ha⟩ hn
  have hquiet : (f.pollStep sleep lag).Quiet := by
    have hsilent := ((f.task.wait sleep lag).poll_ends).resolve_left fun hends => hn hends.1
    unfold Task.Silent at hsilent
    rw [hmoving] at hsilent
    refine ⟨?_, Or.inr ⟨dr', dl', y', by rw [hp.task]; exact hmoving⟩, ?_⟩
    · rcases hp.stage with ⟨s, hsettled, -⟩ | ⟨hstage, -⟩
      · exact absurd ⟨s, hsettled⟩ hn
      · exact hstage.trans hs
    · rw [hcontrols]
      exact hsilent
  rw [hpoll] at hcurrent
  have hannounced := hcurrent hquiet
  rw [pollStep_announced, htold, hcontrols, hstate] at hannounced
  exact (h.stale htripped).ne_state hreset hannounced

/-- An event keeps the published state current exactly if it overlooks no trip. -/
theorem current_next {f : Firmware} {tripped : Bool} {e : Firmware.Event} (h : Kept f tripped) :
    (f.next e).Current ↔ Firmware.Heeds (f, tripped) e := by
  refine ⟨fun hcurrent => ?_, fun hheeds => (kept_next f tripped e ⟨trivial, hheeds⟩ h).current⟩
  cases e with
  | poll sleep lag => exact heeds_of_current h hcurrent
  | act | locked | saveReturns => trivial

/-- The wind guard trips one second into an opening. -/
def tripped : List Firmware.Event :=
  [.act (.execute .open), .poll 0 steady, .act (.input .windTrigger), .poll (fromSecs 1) steady]

/-- The wind guard trips in the last second of an opening, which is saved; then the gate takes the OPEN at rest. -/
def trippedAtEnd : List Firmware.Event :=
  [.act (.execute .open), .poll 0 steady, .poll (fromSecs 3) steady, .poll (fromSecs 13) steady, .act (.input .windTrigger),
    .poll (fromSecs 3) steady, .locked, .saveReturns .ok, .poll 0 steady, .poll 0 steady]

end AnnouncedAux

open AnnouncedAux

/-- In every run, what is published is current in every state in which the gate is suspended, at rest or within a movement, with every
signal taken, if and only if the wind guard engages the wind lock during no movement that goes on through the next poll, unless a reset or
a command for the bypass announces the lock. -/
theorem announced_current_iff (early : List Action) (a b : MotorSettings) (flash : Option GateState) (events : List Firmware.Event) :
    (∀ before later, events = before ++ later → (Firmware.after early a b flash before).Current) ↔
      Allowed (noting Firmware.next Firmware.noteTrip) Firmware.Heeds (Firmware.boot early a b flash, false) events := by
  have hboot : Kept (Firmware.boot early a b flash) false := kept_of_told rfl
  exact forall_prefix_iff_allowed_noting kept_next (fun _ _ _ _ h _ => current_next h) hboot.current hboot fun _ _ => trivial

/-- A trip of the wind guard during an opening is not announced. -/
theorem announced_stale :
    (Firmware.installed tripped).Quiet ∧
      (Firmware.installed tripped).announced ≠ stateMessages (Firmware.installed tripped).controls := by
  have hwaits : (Firmware.installed tripped).task.await =
      .moving ⟨.opening, .running (fromSecs 16), .waiting (fromSecs 3), true⟩ (fromSecs 3) true := by decide +kernel
  exact ⟨⟨by decide +kernel, Or.inr ⟨_, _, _, hwaits⟩, by decide +kernel, by decide +kernel, by decide +kernel⟩, by decide +kernel⟩

/-- A trip with which the movement ends is announced. -/
theorem announced_current_at_end :
    (Firmware.installed trippedAtEnd).announced = stateMessages (Firmware.installed trippedAtEnd).controls := by
  have hends : Allowed (noting Firmware.next Firmware.noteTrip) Firmware.Heeds
      (Firmware.boot [] (settingsOf leafA 0) (settingsOf leafB 0) none, false) trippedAtEnd := by
    refine ⟨trivial, ?_, ?_, ?_, trivial, ?_, trivial, trivial, ?_, ?_, trivial⟩
    case refine_4 =>
      -- leaf B, which is the last to run, has run its time
      intro _ _ _ dr dl y ha
      obtain ⟨rfl, rfl, rfl⟩ := Await.moving.inj ha
      exact Or.inr (Or.inr (Or.inl (by decide +kernel)))
    all_goals exact fun _ htripped => absurd htripped (by decide +kernel)
  have hrests : (Firmware.installed trippedAtEnd).task.await = .idle := by decide +kernel
  exact (announced_current_iff [] (settingsOf leafA 0) (settingsOf leafB 0) none trippedAtEnd).mpr hends trippedAtEnd []
    (List.append_nil _).symm ⟨by decide +kernel, Or.inl hrests, by decide +kernel, by decide +kernel, by decide +kernel⟩

end GateLink
