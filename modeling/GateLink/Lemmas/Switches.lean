import GateLink.Lemmas.Timing

/-!
# What the relays of a leaf do

The relay trace of a leaf: the writes that change the level of one of its pins, the oldest first (`switches`), and what each
operation of the gate adds to it while the clock stands still.
-/

namespace GateLink

/-- A relay of a leaf is switched. -/
structure Switch where
  time : Instant
  direction : Direction
  level : Bool
  deriving DecidableEq, Repr

/-- The switch of a leaf's relay that an entry is, if it is one. -/
def Entry.switch (leaf : Leaf) (e : Entry) : Option Switch :=
  match e.output with
  | .write p level => if p.leaf = leaf ∧ e.levels p ≠ level then some ⟨e.time, p.direction, level⟩ else none
  | _ => none

/-- The switches of a leaf's relays, the oldest first. -/
def switches (leaf : Leaf) (trace : List Entry) : List Switch := (trace.filterMap (Entry.switch leaf)).reverse

section Switches

variable {leaf : Leaf}

/-- A write that leaves the level of its pin, or is to a pin of the other leaf, is no switch. -/
theorem switches_write_none {bd : Board} {p : Pin} {l : Bool} (h : p.leaf = leaf → bd.levels p = l) :
    switches leaf (bd.write p l).trace = switches leaf bd.trace := by
  have hn : ¬(p.leaf = leaf ∧ bd.levels p ≠ l) := fun ⟨hp, hl⟩ => hl (h hp)
  simp [switches, Entry.switch, hn]

/-- A write that changes the level of a pin of the leaf is a switch. -/
theorem switches_write_some {bd : Board} {d : Direction} {l : Bool} (h : bd.levels ⟨leaf, d⟩ ≠ l) :
    switches leaf (bd.write ⟨leaf, d⟩ l).trace = switches leaf bd.trace ++ [⟨bd.tick.now, d, l⟩] := by
  simp [switches, Entry.switch, h]

theorem switches_record (bd : Board) {o : Output} (h : ∀ p l, o ≠ .write p l) :
    switches leaf (bd.record o).trace = switches leaf bd.trace := by
  cases o with
  | write p l => exact absurd rfl (h p l)
  | _ => rfl

/-- A start switches the leaf's relay on, and does nothing to the other leaf. -/
theorem switches_startLeaf {g : Gate} (hs : g.Steady) {leaf' : Leaf} (hi : (g.motor leaf').state = .idle)
    (hw : (g.motor leaf').Wired g.board.levels) (d : Direction) :
    switches leaf (g.startLeaf leaf' d).board.trace =
      switches leaf g.board.trace ++ if leaf' = leaf then [⟨g.now, d, true⟩] else [] := by
  have hlow (d' : Direction) : g.board.levels ⟨leaf', d'⟩ = false := (hw d').trans (Motor.energized_idle hi d')
  have hlow' : (g.board.write ⟨leaf', d.other⟩ false).levels ⟨leaf', d⟩ = false := by
    have hne : (⟨leaf', d⟩ : Pin) ≠ ⟨leaf', d.other⟩ := by simpa using d.other_ne.symm
    rw [Board.write_levels, Function.update_of_ne hne, hlow]
  have hn : (g.board.write ⟨leaf', d.other⟩ false).tick.now = g.now := by
    simp [Board.now, Gate.now, Clock.tick_of_steady hs]
  rw [Gate.startLeaf_board, Motor.start_of_idle hi]
  show switches leaf ((g.board.write ⟨leaf', d.other⟩ false).write ⟨leaf', d⟩ true).trace = _
  by_cases hl : leaf' = leaf
  · subst hl
    rw [if_pos rfl, switches_write_some (by rw [hlow']; exact Bool.false_ne_true), switches_write_none (fun _ => hlow _), hn]
  · rw [if_neg hl, List.append_nil, switches_write_none (fun h => absurd h hl), switches_write_none (fun h => absurd h hl)]

/-- A stop of a leaf that runs switches its relay off, and does nothing to the other leaf. -/
theorem switches_stopLeaf {g : Gate} (hs : g.Steady) {leaf' : Leaf} {d : Direction} {since : Instant}
    (hr : (g.motor leaf').state = .running d since) (hw : (g.motor leaf').Wired g.board.levels) :
    switches leaf (g.stopLeaf leaf').board.trace =
      switches leaf g.board.trace ++ if leaf' = leaf then [⟨g.now, d, false⟩] else [] := by
  have hlevel (d' : Direction) : g.board.levels ⟨leaf', d'⟩ = (d == d') := (hw d').trans (Motor.energized_running hr d')
  have hne : (⟨leaf', .closing⟩ : Pin) ≠ ⟨leaf', .opening⟩ := by simp
  have hclose : (g.board.write ⟨leaf', .opening⟩ false).levels ⟨leaf', .closing⟩ = (d == .closing) := by
    rw [Board.write_levels, Function.update_of_ne hne, hlevel]
  have hn : (g.board.write ⟨leaf', .opening⟩ false).tick.now = g.now := by
    simp [Board.now, Gate.now, Clock.tick_of_steady hs]
  have hn' : g.board.tick.now = g.now := by simp [Board.now, Gate.now, Clock.tick_of_steady hs]
  rw [Gate.stopLeaf_board, Motor.stop_of_running hr]
  show switches leaf ((g.board.write ⟨leaf', .opening⟩ false).write ⟨leaf', .closing⟩ false).trace = _
  by_cases hl : leaf' = leaf
  · subst hl
    rw [if_pos rfl]
    cases d with
    | opening =>
      have hlow : (g.board.write ⟨leaf', .opening⟩ false).levels ⟨leaf', .closing⟩ = false := hclose
      rw [switches_write_none (fun _ => hlow), switches_write_some (by rw [hlevel]; decide), hn']
    | closing =>
      have hlow : g.board.levels ⟨leaf', .opening⟩ = false := hlevel .opening
      rw [switches_write_some (by rw [hclose]; decide), switches_write_none (fun _ => hlow), hn]
  · rw [if_neg hl, List.append_nil, switches_write_none (fun h => absurd h hl), switches_write_none (fun h => absurd h hl)]

end Switches

end GateLink
