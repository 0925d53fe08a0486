import GateLink.Lemmas.Shape

/-!
# What the gate writes

Every write to a pin that the gate makes lies within one direction (`Entry.Within`): the relays that are energized at that
moment are of that direction, and a relay is energized only if it is, and only while nothing blocks the direction. What can
block a movement and is not seen by the task yet has left a signal behind (`Guarded`).
-/

namespace GateLink

open Machine

/-- The relays that are energized are all of one direction. -/
def LevelsWithin (d : Direction) (levels : Pin → Bool) : Prop := ∀ p, levels p = true → p.direction = d

/-- At the entry, the energized relays are of one direction, and a relay that is written high is of that direction, which is
not blocked. -/
def Entry.Within (d : Direction) (e : Entry) : Prop :=
  LevelsWithin d e.levels ∧ ∀ p, e.output = .write p true → p.direction = d ∧ e.controls.blocked d = none

/-- Every entry of the trace lies within some direction. -/
def TraceWithin (g : Gate) : Prop := ∀ e ∈ g.board.trace, ∃ d, e.Within d

/-- Releasing a relay keeps the energized relays within a direction. -/
theorem LevelsWithin.update {d : Direction} {levels : Pin → Bool} (h : LevelsWithin d levels) (p : Pin) :
    LevelsWithin d (Function.update levels p false) := by
  intro q hq
  by_cases hqp : q = p
  · subst hqp
    simp at hq
  · rw [Function.update_of_ne hqp] at hq
    exact h q hq

/-- The levels an entry leaves lie within its direction. -/
theorem Entry.Within.after {d : Direction} {e : Entry} (h : e.Within d) : LevelsWithin d e.after := by
  cases ho : e.output with
  | write p l =>
    rw [Entry.after_write ho]
    cases l with
    | false => exact h.1.update p
    | true =>
      intro q hq
      by_cases hqp : q = p
      · subst hqp
        exact (h.2 q ho).1
      · rw [Function.update_of_ne hqp] at hq
        exact h.1 q hq
  | _ =>
    rw [Entry.after_of_not_write (by rw [ho]; nofun)]
    exact h.1

/-- A release lies within the direction of the energized relays. -/
theorem Entry.Within.low {d : Direction} {levels : Pin → Bool} (h : LevelsWithin d levels) {p : Pin} {t : Instant}
    {c : Controls} : Entry.Within d { output := .write p false, time := t, levels := levels, controls := c } :=
  ⟨h, fun _ he => by cases he⟩

/-- The entries that a stop adds lie within the direction of the energized relays. -/
theorem Motor.stop_adds {leaf : Leaf} (m : Motor leaf) {bd : Board} {d : Direction} (h : LevelsWithin d bd.levels) :
    Trace.Adds (Entry.Within d) bd.trace (m.stop bd).2.trace ∧ LevelsWithin d (m.stop bd).2.levels := by
  cases hs : m.state with
  | idle =>
    rw [stop_of_idle hs]
    exact ⟨.refl _ _, h⟩
  | running d' t =>
    rw [stop_of_running hs]
    exact ⟨.cons (.cons (.refl _ _) (.low h)) (.low (h.update _)), (h.update _).update _⟩

/-- The entries that a start adds lie within its direction, if nothing blocks it. -/
theorem Motor.started_adds {leaf : Leaf} (m : Motor leaf) {bd : Board} {d : Direction} (h : LevelsWithin d bd.levels)
    (hb : bd.controls.blocked d = none) : Trace.Adds (Entry.Within d) bd.trace (m.started d bd).trace := by
  refine .cons (.cons (.refl _ _) (.low h)) ⟨h.update _, fun p hp => ?_⟩
  obtain rfl : (⟨leaf, d⟩ : Pin) = p := by simpa using hp
  exact ⟨rfl, hb⟩

theorem TraceWithin.adds {g g' : Gate} {d : Direction} (h : TraceWithin g)
    (ha : Trace.Adds (Entry.Within d) g.board.trace g'.board.trace) : TraceWithin g' :=
  (ha.mono (fun _ he => ⟨d, he⟩)).forall h

/-- An entry that writes no pin, made while the energized relays lie within a direction. -/
theorem TraceWithin.record {g : Gate} {d : Direction} (h : TraceWithin g) (hl : LevelsWithin d g.board.levels) {o : Output}
    (ho : ∀ p, o ≠ .write p true) : TraceWithin (g.record o) :=
  h.adds (.cons (.refl _ _) ⟨hl, fun p hp => absurd hp (ho p)⟩)

theorem TraceWithin.stopLeaf {g : Gate} {d : Direction} (h : TraceWithin g) (hl : LevelsWithin d g.board.levels)
    (leaf : Leaf) : TraceWithin (g.stopLeaf leaf) ∧ LevelsWithin d (g.stopLeaf leaf).board.levels :=
  ⟨h.adds ((g.motor leaf).stop_adds hl).1, ((g.motor leaf).stop_adds hl).2⟩

/-- In motion, the energized relays are of the direction of the movement. -/
theorem Gate.InMotion.within {g : Gate} {dr : Drive} (h : g.InMotion dr) : LevelsWithin dr.direction g.board.levels :=
  fun _ hp => h.of_high hp

/-- A gate that stands still has its relays within any direction. -/
theorem Gate.Wired.within {g : Gate} (h : g.Wired) (hs : g.Still) (d : Direction) : LevelsWithin d g.board.levels := by
  intro p hp
  rw [h.low hs p] at hp
  cases hp

/-- What blocks the movement in flight has left a signal, or has been looked at. -/
def Guarded (g : Gate) : Point → Prop
  | .await (.moving dr _ _) =>
    g.controls.blocked dr.direction ≠ none → g.controls.command ≠ none ∨ g.controls.barrierChanged ≠ none
  | .starting dr _ _ => g.controls.blocked dr.direction = none
  | .stopping dr _ _ => g.controls.blocked dr.direction = none
  | _ => True

theorem guarded_afterLeaf {g : Gate} {dr : Drive} (h : g.controls.blocked dr.direction = none) (now : Instant)
    (leaf : Leaf) : Guarded g (.afterLeaf dr now leaf) :=
  Point.afterLeaf_rule h (fun _ => trivial) (fun _ _ hb => absurd h hb) leaf

/-- Every block keeps the movement guarded. -/
theorem guarded_step {g g' : Gate} {p p' : Point} (hs : Step g p g' p') (h : Shape g p) (hg : Guarded g p) :
    Guarded g' p' := by
  cases hs with
  | look hb => exact hb
  | notDue hp => exact hg
  | start hp hn hr =>
    simp only [Guarded, Drive.direction_setMoved, Drive.direction_setPhase, Gate.startLeaf_controls]
    exact hg
  | skip hp hn hr =>
    simp only [Guarded, Drive.direction_setPhase]
    exact hg
  | keep hp => exact guarded_afterLeaf hg _ _
  | complete hp hn =>
    refine guarded_afterLeaf ?_ _ _
    rw [Gate.stopLeaf_controls, Drive.direction_setPhase]
    exact hg
  | readClock => exact hg
  | suspend hc hb hr => exact hg
  | _ => trivial

/-- Every block writes within a direction. -/
theorem traceWithin_step {g g' : Gate} {p p' : Point} (hs : Step g p g' p') (h : Shape g p) (hg : Guarded g p)
    (ht : TraceWithin g) : TraceWithin g' := by
  cases hs with
  | @begin c d hc hb =>
    have hl : LevelsWithin d g.board.levels := h.1.wired.within h.1.still d
    have h1 : TraceWithin (g.modify (·.setDirection d)) := ht
    have h2 := h1.record (o := .start d) (d := d) hl nofun
    exact h2.record (o := .notify) (d := d) hl nofun
  | stop hc =>
    rw [h.1.still.stopBoth]
    exact ht
  | @start dr leaf now at' r hp hn hr =>
    have hi : (g.motor leaf).state = .idle := (h.phase leaf).idle (by rw [hp]; nofun)
    refine ht.adds (d := dr.direction) ?_
    rw [Gate.startLeaf_board, Motor.start_of_idle hi]
    exact Motor.started_adds (g.motor leaf) h.within hg
  | complete hp hn => exact (ht.stopLeaf h.within _).1
  | @announce dr dl y hc hb hr =>
    have h1 : TraceWithin g.takeWindLockReset := ht
    exact h1.record (o := .notify) (d := dr.direction) h.within nofun
  | @finish dr result =>
    have ha := ht.stopLeaf h.1.within .a
    have hb := ha.1.stopLeaf ha.2 .b
    exact (Gate.endDrive_rule (P := fun g => TraceWithin g ∧ LevelsWithin dr.direction g.board.levels) hb (fun _ h => h)
      (fun _ h => ⟨h.1.record (o := .finish) h.2 nofun, h.2⟩) dr).1
  | settle =>
    exact ht.adds (d := .opening) (.cons (.refl _ _) ⟨h.1.within h.2.1 _, nofun⟩)
  | _ => exact ht

/-- The shape, the guard and the trace together. -/
def Safe (g : Gate) (p : Point) : Prop := Shape g p ∧ Guarded g p ∧ TraceWithin g

theorem safe_step : Preserved Safe := fun _ _ _ _ hs h =>
  ⟨shape_step hs h.1, guarded_step hs h.1 h.2.1, traceWithin_step hs h.1 h.2.1 h.2.2⟩

/-- A call that blocks a direction, or leaves it blocked, leaves a signal behind as well. -/
theorem Call.apply_guarded (call : Call) {c : Controls} {d : Direction}
    (h : c.blocked d ≠ none → c.command ≠ none ∨ c.barrierChanged ≠ none) :
    (call.apply c).blocked d ≠ none → (call.apply c).command ≠ none ∨ (call.apply c).barrierChanged ≠ none := by
  intro hb
  have send (command : GateCommand) (hs : (c.sendUnlessLocked command).blocked d ≠ none) :
      (c.sendUnlessLocked command).command ≠ none ∨ (c.sendUnlessLocked command).barrierChanged ≠ none := by
    obtain ⟨-, he⟩ | ⟨-, he⟩ := c.sendUnlessLocked_cases command
    · rw [he] at hs ⊢
      exact h hs
    · rw [he]
      exact Or.inl (Option.some_ne_none _)
  cases call with
  | «open» => exact send .open hb
  | close => exact send .close hb
  | stop => exact send .stop hb
  | impulse => exact send .impulse hb
  | windTrigger => exact Or.inl (Option.some_ne_none _)
  | resetWindLock =>
    refine h fun hn => hb ?_
    rw [Controls.blocked_eq_none_iff] at hn
    exact (Controls.blocked_eq_none_iff _ _).mpr ⟨hn.1, fun _ => rfl⟩
  | barrier1Set active =>
    refine Or.inr ?_
    simp only [apply]
    obtain ⟨-, he⟩ | ⟨-, -, he⟩ := c.barrier1Set_cases active <;> rw [he] <;> exact Option.some_ne_none _
  | barrier2Set active => exact Or.inr (Option.some_ne_none _)
  | setBarrierBypass active => exact Or.inr (Option.some_ne_none _)

theorem safe_call (t : Task) (c : Call) (h : t.Holds Safe) : (t.call c).Holds Safe := by
  refine ⟨shape_call t c h.1, ?_, h.2.2⟩
  obtain ⟨g, w⟩ := t
  cases w with
  | moving dr dl y => exact c.apply_guarded h.2.1
  | _ => trivial

theorem safe_wait (t : Task) (d : Duration) (lag : Nat → Duration) (h : t.Holds Safe) : (t.wait d lag).Holds Safe :=
  ⟨shape_wait t d lag h.1, h.2.1, h.2.2⟩

theorem safe_boot (early : List Call) (a b : MotorSettings) (locked : Bool) : (boot early a b locked).Holds Safe := by
  refine ⟨shape_boot early a b locked, trivial, ?_⟩
  have h0 : LevelsWithin .opening (fun _ => false) := fun _ h => by cases h
  have ha := (h0.update ⟨.a, .opening⟩).update ⟨.a, .closing⟩
  have hb := (ha.update ⟨.b, .opening⟩).update ⟨.b, .closing⟩
  have hnew : Trace.Adds (Entry.Within .opening) [] (boot early a b locked).gate.board.trace :=
    .cons (.cons (.cons (.cons (.cons (.refl _ _) (.low h0)) (.low (h0.update _))) (.low ha)) (.low (ha.update _)))
      ⟨hb, nofun⟩
  exact fun e he => ⟨.opening, hnew.forall (by simp) e he⟩

/-- Every reachable state is safe. -/
theorem safe_after (early : List Call) (a b : MotorSettings) (locked : Bool) (events : List Event) :
    (after early a b locked events).Holds Safe :=
  safe_step.after safe_call safe_wait (safe_boot early a b locked) events

end GateLink
