import GateLink.Controls
import Mathlib.Logic.Function.Basic

/-!
# The board: pins, clock and what an observer sees

The four relay pins with their levels, the clock and the shared controls: everything outside of the gate task that it reads
and writes. The trace is what an observer notes down, the newest entry first: every write to a pin, with its time, the levels
just before it and the controls at that moment, and the moments the gate calls `notify`, starts a movement and ends one.
-/

namespace GateLink

/-- One of the two leaves of the gate. -/
inductive Leaf where
  | a | b
  deriving DecidableEq, Repr

theorem Leaf.forall_iff {P : Leaf → Prop} : (∀ leaf, P leaf) ↔ P .a ∧ P .b :=
  ⟨fun h => ⟨h .a, h .b⟩, fun h leaf => by cases leaf <;> [exact h.1; exact h.2]⟩

instance (P : Leaf → Prop) [DecidablePred P] : Decidable (∀ leaf, P leaf) := decidable_of_iff _ Leaf.forall_iff.symm

/-- A relay pin: a leaf has an open and a close relay. -/
structure Pin where
  leaf : Leaf
  direction : Direction
  deriving DecidableEq, Repr

/-- What an entry of the trace is about. -/
inductive Output where
  | write (pin : Pin) (level : Bool)
  | notify
  | start (direction : Direction)
  | finish
  deriving DecidableEq, Repr

/-- An entry of the trace: what happened, when, and the levels before it and the controls at that moment. -/
structure Entry where
  output : Output
  time : Instant
  levels : Pin → Bool
  controls : Controls

/-- The entry switches a pin from low to high. -/
def Entry.SwitchesOn (e : Entry) (p : Pin) : Prop := e.output = .write p true ∧ e.levels p = false

/-- The entry switches a pin from high to low. -/
def Entry.SwitchesOff (e : Entry) (p : Pin) : Prop := e.output = .write p false ∧ e.levels p = true

instance (e : Entry) (p : Pin) : Decidable (e.SwitchesOn p) := inferInstanceAs (Decidable (_ ∧ _))

instance (e : Entry) (p : Pin) : Decidable (e.SwitchesOff p) := inferInstanceAs (Decidable (_ ∧ _))

/-- The entry is the start of a movement. -/
def Entry.isStart (e : Entry) : Bool :=
  match e.output with
  | .start _ => true
  | _ => false

/-- The levels after the entry. -/
def Entry.after (e : Entry) : Pin → Bool :=
  match e.output with
  | .write p level => Function.update e.levels p level
  | _ => e.levels

theorem Entry.after_write {e : Entry} {p : Pin} {l : Bool} (h : e.output = .write p l) :
    e.after = Function.update e.levels p l := by
  simp [Entry.after, h]

theorem Entry.after_of_not_write {e : Entry} (h : ∀ p l, e.output ≠ .write p l) : e.after = e.levels := by
  cases ho : e.output with
  | write p l => exact absurd ho (h p l)
  | _ => simp [Entry.after, ho]

/-- Everything the gate task reads and writes outside of itself. -/
structure Board where
  clock : Clock
  controls : Controls
  levels : Pin → Bool
  trace : List Entry

namespace Board

/-- The board at boot: the relays were driven low first thing. -/
def new (controls : Controls) : Board where
  clock := { now := 0, lag := steady }
  controls := controls
  levels := fun _ => false
  trace := []

/-- `Instant::now()` after a `tick`. -/
def now (bd : Board) : Instant := bd.clock.now

def tick (bd : Board) : Board := { bd with clock := bd.clock.tick }

def record (bd : Board) (o : Output) : Board :=
  { bd with trace := { output := o, time := bd.now, levels := bd.levels, controls := bd.controls } :: bd.trace }

/-- `set_low` and `set_high` of a pin. -/
def write (bd : Board) (p : Pin) (level : Bool) : Board :=
  { bd.tick.record (.write p level) with levels := Function.update bd.levels p level }

def setLow (bd : Board) (p : Pin) : Board := bd.write p false

def setHigh (bd : Board) (p : Pin) : Board := bd.write p true

/-- A store to the shared controls. -/
def modify (bd : Board) (f : Controls → Controls) : Board := { bd with controls := f bd.controls }

/-- Time passes while the task sleeps; `lag` is how time will pass in the poll that follows. -/
def wait (bd : Board) (sleep : Duration) (lag : Nat → Duration) : Board :=
  { bd with clock := { now := bd.now + sleep, lag := lag } }

section Projections

variable (bd : Board)

@[simp] theorem tick_controls : bd.tick.controls = bd.controls := rfl
@[simp] theorem tick_levels : bd.tick.levels = bd.levels := rfl
@[simp] theorem tick_trace : bd.tick.trace = bd.trace := rfl
@[simp] theorem tick_clock : bd.tick.clock = bd.clock.tick := rfl

@[simp] theorem record_controls (o : Output) : (bd.record o).controls = bd.controls := rfl
@[simp] theorem record_levels (o : Output) : (bd.record o).levels = bd.levels := rfl
@[simp] theorem record_clock (o : Output) : (bd.record o).clock = bd.clock := rfl
@[simp] theorem record_trace (o : Output) :
    (bd.record o).trace = { output := o, time := bd.now, levels := bd.levels, controls := bd.controls } :: bd.trace := rfl

@[simp] theorem write_controls (p : Pin) (l : Bool) : (bd.write p l).controls = bd.controls := rfl
@[simp] theorem write_levels (p : Pin) (l : Bool) : (bd.write p l).levels = Function.update bd.levels p l := rfl
@[simp] theorem write_clock (p : Pin) (l : Bool) : (bd.write p l).clock = bd.clock.tick := rfl
@[simp] theorem write_trace (p : Pin) (l : Bool) :
    (bd.write p l).trace =
      { output := .write p l, time := bd.tick.now, levels := bd.levels, controls := bd.controls } :: bd.trace := rfl

@[simp] theorem modify_controls (f : Controls → Controls) : (bd.modify f).controls = f bd.controls := rfl
@[simp] theorem modify_levels (f : Controls → Controls) : (bd.modify f).levels = bd.levels := rfl
@[simp] theorem modify_trace (f : Controls → Controls) : (bd.modify f).trace = bd.trace := rfl
@[simp] theorem modify_clock (f : Controls → Controls) : (bd.modify f).clock = bd.clock := rfl

@[simp] theorem wait_controls (d : Duration) (l : Nat → Duration) : (bd.wait d l).controls = bd.controls := rfl
@[simp] theorem wait_levels (d : Duration) (l : Nat → Duration) : (bd.wait d l).levels = bd.levels := rfl
@[simp] theorem wait_trace (d : Duration) (l : Nat → Duration) : (bd.wait d l).trace = bd.trace := rfl

end Projections

end Board

end GateLink
