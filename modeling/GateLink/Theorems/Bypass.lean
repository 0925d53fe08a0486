import GateLink.Lemmas.Log
import GateLink.Lemmas.Trace
import GateLink.Config

/-!
# The barrier bypass is used up by one movement

An armed bypass stays armed until the first movement that has switched on a relay ends, and no longer (`bypass_one_shot`). Whether a
movement uses it up depends on a variable of `drive`, which is tied here to what the trace says of the movement (`Moved`); whether it is
armed is then a matter of the trace alone, at every entry of it (`ArmedSince`).
-/

namespace GateLink

open Machine

/-- The movement under way, or the latest one, has switched on a relay. -/
def HasSwitchedOn (trace : List Entry) : Prop := ∃ e ∈ trace.takeWhile fun e => !e.isStart, ∃ p, e.SwitchesOn p

/-- Since the trace was `old`, a movement that has switched on a relay has ended. -/
def UsedUp (old trace : List Entry) : Prop :=
  ∃ e rest, e :: rest <:+ trace ∧ old <:+ rest ∧ e.output = .finish ∧ HasSwitchedOn rest

/-- The event calls `set_barrier_bypass`, with the given argument. -/
def Event.SetsBypass (active : Bool) (e : Event) : Prop := e = .call (.setBarrierBypass active)

namespace BypassAux

/-- An entry other than a start adds to the movement what it switches on. -/
theorem hasSwitchedOn_cons {e : Entry} (he : e.isStart = false) (trace : List Entry) :
    HasSwitchedOn (e :: trace) ↔ (∃ p, e.SwitchesOn p) ∨ HasSwitchedOn trace := by
  simp [HasSwitchedOn, he]

/-- A movement that has just been started has switched on no relay. -/
theorem not_hasSwitchedOn_start {e : Entry} (he : e.isStart = true) (trace : List Entry) : ¬HasSwitchedOn (e :: trace) := by
  simp [HasSwitchedOn, he]

/-- Entries that start no movement and switch on no relay do not change whether the movement has switched one on. -/
theorem hasSwitchedOn_adds {old new : List Entry} (h : Trace.Adds (fun e => e.isStart = false ∧ ∀ p, ¬e.SwitchesOn p) old new) :
    HasSwitchedOn new ↔ HasSwitchedOn old := by
  obtain ⟨fresh, rfl, hf⟩ := h
  induction fresh with
  | nil => exact Iff.rfl
  | cons e fresh ih =>
    obtain ⟨⟨hs, hn⟩, hf⟩ := List.forall_mem_cons.mp hf
    rw [List.cons_append, hasSwitchedOn_cons hs, ih hf]
    exact or_iff_right fun ⟨p, hp⟩ => hn p hp

/-- An entry is one more place where a movement can have ended. -/
theorem usedUp_cons {old trace : List Entry} (h : old <:+ trace) (e : Entry) :
    UsedUp old (e :: trace) ↔ (e.output = .finish ∧ HasSwitchedOn trace) ∨ UsedUp old trace := by
  constructor
  · rintro ⟨x, rest, hs, ho, hx, hm⟩
    rcases List.suffix_cons_iff.mp hs with he | hs
    · obtain ⟨rfl, rfl⟩ := List.cons.inj he
      exact Or.inl ⟨hx, hm⟩
    · exact Or.inr ⟨x, rest, hs, ho, hx, hm⟩
  · rintro (⟨hx, hm⟩ | ⟨x, rest, hs, ho, hx, hm⟩)
    · exact ⟨e, trace, List.suffix_refl _, h, hx, hm⟩
    · exact ⟨x, rest, hs.trans (List.suffix_cons _ _), ho, hx, hm⟩

/-- What is used up stays so. -/
theorem usedUp_mono {old trace trace' : List Entry} (h : UsedUp old trace) (hs : trace <:+ trace') : UsedUp old trace' := by
  obtain ⟨e, rest, he, ho, hx, hm⟩ := h
  exact ⟨e, rest, he.trans hs, ho, hx, hm⟩

/-- Nothing is used up while nothing has happened. -/
theorem not_usedUp_self (trace : List Entry) : ¬UsedUp trace trace := by
  rintro ⟨e, rest, he, ho, -, -⟩
  have h1 := he.length_le
  have h2 := ho.length_le
  rw [List.length_cons] at h1
  omega

/-- What is written when a leaf is stopped: releases of its relays. -/
theorem stop_adds {leaf : Leaf} (m : Motor leaf) (bd : Board) :
    Trace.Adds (fun e => (∃ p, e.output = .write p false) ∧ e.controls = bd.controls) bd.trace (m.stop bd).2.trace := by
  cases hs : m.state with
  | idle =>
    rw [Motor.stop_of_idle hs]
    exact .refl _ _
  | running d t =>
    rw [Motor.stop_of_running hs]
    exact .cons (.cons (.refl _ _) ⟨⟨_, rfl⟩, rfl⟩) ⟨⟨_, rfl⟩, rfl⟩

/-- Stopping both leaves writes such releases, too. -/
theorem stopBoth_adds (g : Gate) :
    Trace.Adds (fun e => (∃ p, e.output = .write p false) ∧ e.controls = g.controls) g.board.trace
      ((g.stopLeaf .a).stopLeaf .b).board.trace := by
  have ha := stop_adds (g.motor .a) g.board
  have hb := stop_adds ((g.stopLeaf .a).motor .b) (g.stopLeaf .a).board
  have hc : (g.stopLeaf .a).board.controls = g.board.controls := g.stopLeaf_controls .a
  rw [hc] at hb
  exact ha.trans hb

/-- A release starts no movement and switches on no relay. -/
theorem quiet_of_release {e : Entry} (h : ∃ p, e.output = .write p false) : e.isStart = false ∧ ∀ p, ¬e.SwitchesOn p := by
  obtain ⟨p, ho⟩ := h
  refine ⟨by simp [Entry.isStart, ho], fun q hq => ?_⟩
  rw [Entry.SwitchesOn, ho] at hq
  cases hq.1

/-- Stopping a motor does not change whether the movement has switched on a relay. -/
theorem hasSwitchedOn_stop {leaf : Leaf} (m : Motor leaf) (bd : Board) :
    HasSwitchedOn (m.stop bd).2.trace ↔ HasSwitchedOn bd.trace :=
  hasSwitchedOn_adds ((stop_adds m bd).mono fun _ h => quiet_of_release h.1)

/-- `drive` knows whether the movement has switched on a relay. -/
def Moved (g : Gate) : Point → Prop
  | .await (.moving dr _ _) | .top dr | .starting dr _ _ | .stopping dr _ _ | .over dr _ =>
    dr.moved = true ↔ HasSwitchedOn g.board.trace
  | _ => True

/-- After a leaf, `drive` knows as much as before. -/
theorem moved_afterLeaf {g : Gate} {dr : Drive} (h : dr.moved = true ↔ HasSwitchedOn g.board.trace) (now : Instant) (leaf : Leaf) :
    Moved g (.afterLeaf dr now leaf) :=
  Point.afterLeaf_rule h (fun _ => h) (fun _ _ => h) leaf

/-- After every step, `drive` knows whether the movement has switched on a relay. -/
theorem moved_step {g g' : Gate} {p p' : Point} (hs : Step g p g' p') (hshape : Shape g p) (h : Moved g p) : Moved g' p' := by
  cases hs with
  | @begin c d hc hb =>
    refine iff_of_false nofun ?_
    show ¬HasSwitchedOn (_ :: _ :: g.board.trace)
    rw [hasSwitchedOn_cons rfl]
    rintro (⟨p, hp⟩ | hstart)
    · cases hp.1
    · exact not_hasSwitchedOn_start rfl _ hstart
  | @start dr leaf now at' r hp hn hr =>
    have hi : (g.motor leaf).state = .idle := (hshape.phase leaf).idle (by rw [hp]; nofun)
    have hlow : g.board.levels ⟨leaf, dr.direction⟩ = false :=
      (hshape.wired leaf dr.direction).trans (Motor.energized_idle hi _)
    refine iff_of_true rfl ?_
    rw [Gate.startLeaf_board, Motor.start_of_idle hi]
    show HasSwitchedOn (_ :: _ :: g.board.trace)
    rw [hasSwitchedOn_cons rfl]
    have hne : (⟨leaf, dr.direction⟩ : Pin) ≠ ⟨leaf, dr.direction.other⟩ := by simpa using dr.direction.other_ne.symm
    refine Or.inl ⟨⟨leaf, dr.direction⟩, rfl, ?_⟩
    show (g.board.write ⟨leaf, dr.direction.other⟩ false).levels ⟨leaf, dr.direction⟩ = false
    rw [Board.write_levels, Function.update_of_ne hne, hlow]
  | skip hp hn hr => simpa [Moved] using h
  | keep hp => exact moved_afterLeaf h _ _
  | @complete dr leaf now at' hp hn =>
    refine moved_afterLeaf ?_ _ _
    rw [Drive.moved_setPhase, Gate.stopLeaf_board, hasSwitchedOn_stop]
    exact h
  | announce hc hb hr =>
    refine h.trans (Iff.symm ?_)
    show HasSwitchedOn (_ :: g.board.trace) ↔ _
    rw [hasSwitchedOn_cons rfl]
    exact or_iff_right fun ⟨p, hp⟩ => by cases hp.1
  | look | notDue | readClock | timer | sameCommand | interrupt | barrier | block | suspend => exact h
  | _ => trivial

/-- Since the trace was `old`, the bypass has been armed exactly as long as it was not used up: so at every entry, and so now. -/
structure ArmedSince (old : List Entry) (armed : Bool) (trace : List Entry) : Prop where
  suffix : old <:+ trace
  now : armed = true ↔ ¬UsedUp old trace
  entries : ∀ e rest, e :: rest <:+ trace → old <:+ rest → (e.controls.barrierBypass = true ↔ ¬UsedUp old (e :: rest))

variable {old trace : List Entry} {armed : Bool}

/-- The bypass has just been armed. -/
theorem ArmedSince.start (trace : List Entry) : ArmedSince trace true trace where
  suffix := List.suffix_refl _
  now := iff_of_true rfl (not_usedUp_self trace)
  entries := fun e rest he ho => by
    have h1 := he.length_le
    have h2 := ho.length_le
    rw [List.length_cons] at h1
    omega

/-- An entry keeps it, if what it notes of the bypass, and leaves of it, is what the trace with it on top says. -/
theorem ArmedSince.cons {armed' : Bool} (h : ArmedSince old armed trace) {e : Entry} (hc : e.controls.barrierBypass = armed')
    (hu : armed' = true ↔ ¬UsedUp old (e :: trace)) : ArmedSince old armed' (e :: trace) where
  suffix := h.suffix.trans (List.suffix_cons _ _)
  now := hu
  entries := fun x rest hs ho => by
    rcases List.suffix_cons_iff.mp hs with he | hs
    · obtain ⟨rfl, rfl⟩ := List.cons.inj he
      rw [hc]
      exact hu
    · exact h.entries x rest hs ho

/-- An entry that ends no movement changes nothing. -/
theorem ArmedSince.cons_same (h : ArmedSince old armed trace) {e : Entry} (ho : e.output ≠ .finish)
    (hc : e.controls.barrierBypass = armed) : ArmedSince old armed (e :: trace) := by
  refine h.cons hc (h.now.trans (not_congr ?_))
  rw [usedUp_cons h.suffix]
  exact (or_iff_right fun ⟨hf, _⟩ => ho hf).symm

/-- It stays armed while no movement ends. -/
theorem ArmedSince.adds {new : List Entry} (h : ArmedSince old armed trace)
    (ha : Trace.Adds (fun e => e.output ≠ .finish ∧ e.controls.barrierBypass = armed) trace new) : ArmedSince old armed new := by
  obtain ⟨fresh, rfl, hf⟩ := ha
  induction fresh with
  | nil => exact h
  | cons e fresh ih =>
    obtain ⟨⟨ho, hc⟩, hf⟩ := List.forall_mem_cons.mp hf
    exact (ih hf).cons_same ho hc

/-- The end of a movement uses the bypass up if the movement has switched on a relay. -/
theorem ArmedSince.finish (h : ArmedSince old armed trace) {e : Entry} {moved : Bool} (hm : moved = true ↔ HasSwitchedOn trace)
    (ho : e.output = .finish) (hc : e.controls.barrierBypass = if moved then false else armed) :
    ArmedSince old (if moved then false else armed) (e :: trace) := by
  refine h.cons hc ?_
  rw [usedUp_cons h.suffix]
  cases moved with
  | true => exact iff_of_false nofun fun hn => hn (Or.inl ⟨ho, hm.mp rfl⟩)
  | false =>
    refine h.now.trans (not_congr (or_iff_right fun ⟨_, hs⟩ => ?_).symm)
    exact Bool.noConfusion (hm.mpr hs)

/-- Since the trace was `old`, the bypass of the gate has been armed exactly as long as it was not used up. -/
def Gate.ArmedSince (old : List Entry) (g : Gate) : Prop := BypassAux.ArmedSince old g.controls.barrierBypass g.board.trace

/-- The end of a movement that has switched a relay disarms it, and no other end does. -/
theorem armedSince_endDrive {g : Gate} (h : Gate.ArmedSince old g) {dr : Drive}
    (hm : dr.moved = true ↔ HasSwitchedOn g.board.trace) : Gate.ArmedSince old (g.endDrive dr) := by
  have hadds := stopBoth_adds g
  have hstop : BypassAux.ArmedSince old g.controls.barrierBypass ((g.stopLeaf .a).stopLeaf .b).board.trace :=
    h.adds (hadds.mono fun e he => ⟨by obtain ⟨⟨p, ho⟩, -⟩ := he; rw [ho]; nofun, by rw [he.2]⟩)
  have hm' : dr.moved = true ↔ HasSwitchedOn ((g.stopLeaf .a).stopLeaf .b).board.trace :=
    hm.trans (hasSwitchedOn_adds (hadds.mono fun _ he => quiet_of_release he.1)).symm
  unfold Gate.ArmedSince
  rw [Gate.endDrive_trace]
  have hc : (g.endDrive dr).controls.barrierBypass = if dr.moved then false else g.controls.barrierBypass := by
    rw [Gate.endDrive_controls]
  rw [hc]
  exact hstop.finish hm' rfl hc

/-- No other output has to do with it. -/
theorem Gate.ArmedSince.record {g : Gate} (h : Gate.ArmedSince old g) {o : Output} (ho : o ≠ .finish) :
    Gate.ArmedSince old (g.record o) :=
  ArmedSince.cons_same h ho rfl

/-- So every step keeps it armed exactly as long. -/
theorem armedSince_step {g g' : Gate} {p p' : Point} (hs : Step g p g' p') (hshape : Shape g p) (hm : Moved g p)
    (h : Gate.ArmedSince old g) : Gate.ArmedSince old g' := by
  cases hs with
  | @begin c d hc hb =>
    have hset : Gate.ArmedSince old (g.modify (·.setDirection d)) := h
    exact (hset.record (o := .start d) nofun).record (o := .notify) nofun
  | stop hc =>
    rw [hshape.1.still.stopBoth]
    exact h
  | @start dr leaf now at' r hp hn hr =>
    have hi : (g.motor leaf).state = .idle := (hshape.phase leaf).idle (by rw [hp]; nofun)
    unfold Gate.ArmedSince
    rw [Gate.startLeaf_controls, Gate.startLeaf_board, Motor.start_of_idle hi]
    exact h.adds (.cons (.cons (.refl _ _) ⟨nofun, rfl⟩) ⟨nofun, rfl⟩)
  | @complete dr leaf now at' hp hn =>
    unfold Gate.ArmedSince
    rw [Gate.stopLeaf_controls]
    refine h.adds ((stop_adds (g.motor leaf) g.board).mono fun e he => ?_)
    obtain ⟨⟨p, ho⟩, hc⟩ := he
    exact ⟨by rw [ho]; nofun, by rw [hc]; rfl⟩
  | announce hc hb hr => exact ArmedSince.cons_same h nofun rfl
  | finish => exact armedSince_endDrive h hm
  | settle => exact ArmedSince.cons_same h nofun rfl
  | _ => exact h

/-- A call other than `set_barrier_bypass` leaves the bypass alone. -/
theorem apply_barrierBypass {call : Call} (h : ∀ active, call ≠ .setBarrierBypass active) (c : Controls) :
    (call.apply c).barrierBypass = c.barrierBypass := by
  have send (command : GateCommand) : (c.sendUnlessLocked command).barrierBypass = c.barrierBypass := by
    obtain ⟨-, he⟩ | ⟨-, he⟩ := c.sendUnlessLocked_cases command <;> rw [he]
    rfl
  cases call with
  | «open» => exact send .open
  | close => exact send .close
  | stop => exact send .stop
  | impulse => exact send .impulse
  | windTrigger => rfl
  | resetWindLock => rfl
  | barrier1Set active =>
    simp only [Call.apply]
    obtain ⟨-, he⟩ | ⟨-, -, he⟩ := c.barrier1Set_cases active <;> rw [he]
    rfl
  | barrier2Set active => rfl
  | setBarrierBypass active => exact absurd rfl (h active)

/-- The shape, what `drive` knows of the movement and what blocks it: what holds in every run, whatever happens to the bypass. -/
def Driven (g : Gate) (p : Point) : Prop := Safe g p ∧ Moved g p

/-- Every step keeps this. -/
theorem driven_step : Preserved Driven := fun _ _ _ _ hs h => ⟨safe_step hs h.1, moved_step hs h.1.1 h.2⟩

/-- A call keeps it. -/
theorem driven_call (t : Task) (c : Call) (h : t.Holds Driven) : (t.call c).Holds Driven := by
  refine ⟨safe_call t c h.1, ?_⟩
  obtain ⟨g, w⟩ := t
  cases w with
  | moving dr dl y => exact h.2
  | _ => trivial

/-- Waiting keeps it. -/
theorem driven_wait (t : Task) (sleep : Duration) (lag : Nat → Duration) (h : t.Holds Driven) :
    (t.wait sleep lag).Holds Driven := by
  refine ⟨safe_wait t sleep lag h.1, ?_⟩
  obtain ⟨g, w⟩ := t
  cases w with
  | moving dr dl y => exact h.2
  | _ => trivial

/-- So it holds in every run. -/
theorem driven_after (early : List Call) (a b : MotorSettings) (locked : Bool) (events : List Event) :
    (after early a b locked events).Holds Driven :=
  driven_step.after driven_call driven_wait ⟨safe_boot early a b locked, trivial⟩ events

/-- As long as `set_barrier_bypass` is not called, the bypass is armed until it is used up. -/
theorem armedSince_run {t : Task} (hd : t.Holds Driven) (h : t.gate.controls.barrierBypass = true) {events : List Event}
    (he : ∀ e ∈ events, ∀ active, ¬e.SetsBypass active) :
    (run Task.next t events).Holds fun g p => Driven g p ∧ Gate.ArmedSince t.gate.board.trace g := by
  have hI : Preserved fun g p => Driven g p ∧ Gate.ArmedSince t.gate.board.trace g := fun _ _ _ _ hs h =>
    ⟨driven_step hs h.1, armedSince_step hs h.1.1.1 h.1.2 h.2⟩
  have hok : Allowed Task.next (fun _ e => ∀ active, ¬e.SetsBypass active) t events := allowed_of_forall he t
  refine hI.run (fun t c hc h => ⟨driven_call t c h.1, ?_⟩) (fun t d lag _ h => ⟨driven_wait t d lag h.1, h.2⟩) ⟨hd, ?_⟩ hok
  · have hb := apply_barrierBypass (fun active hs => hc active (congrArg Event.call hs)) t.gate.controls
    have harmed := h.2
    unfold Gate.ArmedSince at harmed ⊢
    rw [← hb] at harmed
    exact harmed
  · show ArmedSince _ t.gate.controls.barrierBypass _
    rw [h]
    exact .start _

/-- The entry was written with the bypass disarmed. -/
def Disarmed (e : Entry) : Prop := e.controls.barrierBypass = false

/-- The gate does not arm the bypass: while it is not armed, every entry notes that. -/
theorem disarmed_step {g g' : Gate} {p p' : Point} (hs : Step g p g' p') (hshape : Shape g p)
    (h : g.controls.barrierBypass = false) :
    g'.controls.barrierBypass = false ∧ Trace.Adds Disarmed g.board.trace g'.board.trace := by
  have hb : g'.controls.barrierBypass = false := by
    rcases (inputs_step hs).barrierBypass with hb | hb
    · exact hb.trans h
    · exact hb
  have hstop {leaf : Leaf} (m : Motor leaf) : Trace.Adds Disarmed g.board.trace (m.stop g.board).2.trace :=
    (stop_adds m g.board).mono fun e he => (congrArg Controls.barrierBypass he.2).trans h
  have hboth : Trace.Adds Disarmed g.board.trace ((g.stopLeaf .a).stopLeaf .b).board.trace :=
    (stopBoth_adds g).mono fun e he => (congrArg Controls.barrierBypass he.2).trans h
  have hentry {o : Output} {t : Instant} {l : Pin → Bool} {c : Controls} (hc : c.barrierBypass = g.controls.barrierBypass) :
      Disarmed { output := o, time := t, levels := l, controls := c } := hc.trans h
  refine ⟨hb, ?_⟩
  cases hs with
  | @begin c d =>
    exact .cons (.cons (.refl _ _) (hentry (c := g.controls.setDirection d) rfl)) (hentry (c := g.controls.setDirection d) rfl)
  | stop => exact hboth
  | @start dr leaf now at' r hp hn hr =>
    have hi : (g.motor leaf).state = .idle := (hshape.phase leaf).idle (by rw [hp]; nofun)
    rw [Gate.startLeaf_board, Motor.start_of_idle hi]
    exact .cons (.cons (.refl _ _) (hentry rfl)) (hentry rfl)
  | complete => exact hstop _
  | announce => exact .cons (.refl _ _) (hentry rfl)
  | finish =>
    rw [Gate.endDrive_trace]
    exact .cons hboth hb
  | settle => exact .cons (.refl _ _) (hentry rfl)
  | _ => exact .refl _ _

/-- A bypass that is not armed stays so until `set_barrier_bypass` arms it. -/
theorem disarmed_run {t : Task} (hshape : t.Holds Shape) (h : t.gate.controls.barrierBypass = false) {events : List Event}
    (he : ∀ e ∈ events, ¬e.SetsBypass true) :
    Trace.Adds Disarmed t.gate.board.trace (run Task.next t events).gate.board.trace := by
  have hI : Preserved fun g p => Shape g p ∧ g.controls.barrierBypass = false ∧
      Trace.Adds Disarmed t.gate.board.trace g.board.trace := fun g p g' p' hs hg =>
    have hstep := disarmed_step hs hg.1 hg.2.1
    ⟨shape_step hs hg.1, hstep.1, hg.2.2.trans hstep.2⟩
  have hok : Allowed Task.next (fun _ e => ¬e.SetsBypass true) t events := allowed_of_forall he t
  refine (hI.run (fun t c hc hg => ⟨shape_call t c hg.1, ?_, hg.2.2⟩)
    (fun t d lag _ hg => ⟨shape_wait t d lag hg.1, hg.2⟩) ⟨hshape, h, .refl _ _⟩ hok).2.2
  by_cases hset : ∃ active, c = .setBarrierBypass active
  · obtain ⟨active, rfl⟩ := hset
    cases active with
    | true => exact absurd rfl hc
    | false => rfl
  · exact (apply_barrierBypass (fun active hs => hset ⟨active, hs⟩) t.gate.controls).trans hg.2.1

/-- While the bypass is not armed, no relay is switched on against an interrupted light barrier. -/
theorem clear_of_switchesOn {e : Entry} {p : Pin} {d : Direction} (hw : e.Within d) (hs : e.SwitchesOn p)
    (hb : e.controls.barrierBypass = false) :
    e.controls.barrier1Active = false ∧ (p.direction = .closing → e.controls.barrier2Active = false) := by
  obtain ⟨hd, hn⟩ := hw.2 p hs.1
  rw [hd]
  rw [Controls.blocked_eq_none_iff, hb] at hn
  exact hn.1.resolve_left nofun

/-- The installation, closed, right after the bypass was armed. -/
def armedGate : Task := (after [] (settingsOf leafA 0) (settingsOf leafB 0) false []).call (.setBarrierBypass true)

/-- An opening while light barrier 1 is interrupted, stopped after two seconds. -/
def bypassedOpening : List Event :=
  [.call (.barrier1Set true), .call .open, .poll 0 steady, .call .stop, .poll (fromSecs 2) steady]

/-- Another OPEN. -/
def refusedOpening : List Event := [.call .open, .poll (fromSecs 1) steady]

end BypassAux

open BypassAux

/-- The barrier bypass is one-shot, in every run: `t₀` is the state right after `set_barrier_bypass(true)`, or the first one of the gate
task if the call was made before it ran. As long as `set_barrier_bypass` is not called again, the bypass is armed, at every moment that
the trace notes and at every state reached, exactly if no movement that has switched on a relay has ended since `t₀`. And once one has,
until it is armed again, no relay is switched on while light barrier 1 is interrupted, and no close relay while light barrier 2 is. -/
theorem bypass_one_shot (early : List Call) (a b : MotorSettings) (locked : Bool) (before events later : List Event) (t₀ : Task)
    (h₀ : t₀ = (after early a b locked before).call (.setBarrierBypass true) ∨
      t₀ = boot early a b locked ∧ t₀.gate.controls.barrierBypass = true)
    (hevents : ∀ e ∈ events, ∀ active, ¬e.SetsBypass active) (hlater : ∀ e ∈ later, ¬e.SetsBypass true) :
    let old := t₀.gate.board.trace
    let t := run Task.next t₀ events
    let t' := run Task.next t later
    (∀ e rest, e :: rest <:+ t.gate.board.trace → old <:+ rest →
        (e.controls.barrierBypass = true ↔ ¬UsedUp old (e :: rest))) ∧
      (t.gate.controls.barrierBypass = true ↔ ¬UsedUp old t.gate.board.trace) ∧
      ∀ e rest s p, e :: rest <:+ t'.gate.board.trace → s <:+ rest → s <:+ t.gate.board.trace → UsedUp old s → e.SwitchesOn p →
        e.controls.barrier1Active = false ∧ (p.direction = .closing → e.controls.barrier2Active = false) := by
  intro old t t'
  have hstart : t₀.Holds Driven ∧ t₀.gate.controls.barrierBypass = true := by
    rcases h₀ with rfl | ⟨rfl, hb⟩
    · exact ⟨driven_call _ _ (driven_after early a b locked before), rfl⟩
    · exact ⟨driven_after early a b locked [], hb⟩
  obtain ⟨hdriven, harmed⟩ := armedSince_run hstart.1 hstart.2 hevents
  refine ⟨harmed.entries, harmed.now, fun e rest s p he hs hst hused hon => ?_⟩
  have hdriven' : t'.Holds Driven := driven_step.always driven_call driven_wait hdriven later
  obtain ⟨d, hw⟩ := hdriven'.1.2.2 e (he.subset List.mem_cons_self)
  refine clear_of_switchesOn hw hon ?_
  have hdisarmed : t.gate.controls.barrierBypass = false :=
    Bool.eq_false_iff.mpr fun hb => harmed.now.mp hb (usedUp_mono hused hst)
  obtain ⟨fresh, hfresh, hall⟩ := disarmed_run hdriven.1.1 hdisarmed hlater
  have hfinished : old <:+ rest := by
    obtain ⟨x, r, hx, ho, -⟩ := hused
    exact ho.trans ((List.suffix_cons _ _).trans (hx.trans hs))
  -- the entry was written before `later` began, or while it ran
  rw [hfresh] at he
  rcases Trace.suffix_or_mem he with hin | hin
  · exact Bool.eq_false_iff.mpr fun hb =>
      (harmed.entries e rest hin hfinished).mp hb (usedUp_mono hused (hs.trans (List.suffix_cons _ _)))
  · exact hall e hin

/-- An opening against light barrier 1 that is stopped uses the bypass up. -/
theorem bypass_one_shot_opening : UsedUp armedGate.gate.board.trace (run Task.next armedGate bypassedOpening).gate.board.trace := by
  have h := bypass_one_shot [] (settingsOf leafA 0) (settingsOf leafB 0) false [] bypassedOpening refusedOpening armedGate
    (Or.inl rfl) (by simp [bypassedOpening, Event.SetsBypass]) (by simp [refusedOpening, Event.SetsBypass])
  have hcleared : (run Task.next armedGate bypassedOpening).gate.controls.barrierBypass ≠ true := by decide +kernel
  exact not_not.mp fun hn => hcleared (h.2.1.mpr hn)

end GateLink
