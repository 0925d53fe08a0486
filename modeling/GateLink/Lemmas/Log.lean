import GateLink.Lemmas.Shape

/-!
# The trace accounts for the levels

The trace is a log of the pins: the levels noted in an entry are those the entry before it left, and the levels now are those
the latest entry left (`Logged`). So a relay that was energized and no longer is was switched off by an entry written in
between (`Logged.switched_off`). And the trace only grows.
-/

namespace GateLink

open Machine

/-- The trace accounts for the levels, from a board with every pin low. -/
def Logged : List Entry → (Pin → Bool) → Prop
  | [], levels => levels = fun _ => false
  | e :: trace, levels => levels = e.after ∧ Logged trace e.levels

def Board.Logged (bd : Board) : Prop := GateLink.Logged bd.trace bd.levels

theorem Board.Logged.write {bd : Board} (h : bd.Logged) (p : Pin) (l : Bool) : (bd.write p l).Logged := ⟨rfl, h⟩

theorem Board.Logged.record {bd : Board} (h : bd.Logged) {o : Output} (ho : ∀ p l, o ≠ .write p l) :
    (bd.record o).Logged := by
  refine ⟨?_, h⟩
  rw [Entry.after_of_not_write ho]
  rfl

theorem Board.Logged.stop {leaf : Leaf} {m : Motor leaf} {bd : Board} (h : bd.Logged) : (m.stop bd).2.Logged := by
  cases hs : m.state with
  | idle =>
    rw [Motor.stop_of_idle hs]
    exact h
  | running d t =>
    rw [Motor.stop_of_running hs]
    exact (h.write _ _).write _ _

theorem Board.Logged.started {leaf : Leaf} {m : Motor leaf} {bd : Board} (h : bd.Logged) (d : Direction) :
    (m.started d bd).Logged :=
  (h.write _ _).write _ _

theorem endDrive_logged {g : Gate} (h : g.board.Logged) (dr : Drive) : (g.endDrive dr).board.Logged := by
  have hb : ((g.stopLeaf .a).stopLeaf .b).board.Logged := h.stop.stop
  exact Gate.endDrive_rule (P := fun g => g.board.Logged) hb (fun _ h => h) (fun _ h => h.record nofun) dr

/-- Every block keeps the log. -/
theorem logged_step {g g' : Gate} {p p' : Point} (hs : Step g p g' p') (h : Shape g p) (hl : g.board.Logged) :
    g'.board.Logged := by
  cases hs with
  | @begin c d hc hb =>
    have h1 : (g.board.modify (·.setDirection d)).Logged := hl
    exact (h1.record (o := .start d) nofun).record (o := .notify) nofun
  | stop hc => exact hl.stop.stop
  | @start dr leaf now at' r hp hn hr =>
    have hi : (g.motor leaf).state = .idle := (h.phase leaf).idle (by rw [hp]; nofun)
    rw [Gate.startLeaf_board, Motor.start_of_idle hi]
    exact hl.started (m := g.motor leaf) dr.direction
  | complete hp hn => exact hl.stop
  | announce hc hb hr =>
    have h1 : g.takeWindLockReset.board.Logged := hl
    exact h1.record (o := .notify) nofun
  | finish => exact endDrive_logged hl _
  | @settle result =>
    refine ⟨?_, hl⟩
    rfl
  | _ => exact hl

theorem Motor.stop_suffix {leaf : Leaf} (m : Motor leaf) (bd : Board) : bd.trace <:+ (m.stop bd).2.trace := by
  cases hs : m.state with
  | idle => exact ⟨[], by rw [Motor.stop_of_idle hs, List.nil_append]⟩
  | running d t =>
    rw [Motor.stop_of_running hs]
    exact (List.suffix_cons _ _).trans (List.suffix_cons _ _)

theorem Motor.start_suffix {leaf : Leaf} (m : Motor leaf) (d : Direction) (bd : Board) : bd.trace <:+ (m.start d bd).2.trace := by
  have h : bd.trace <:+ (m.settle bd).2.trace := m.stop_suffix bd
  cases d
  · exact h.trans ((List.suffix_cons _ _).trans (List.suffix_cons _ _))
  · exact h.trans ((List.suffix_cons _ _).trans (List.suffix_cons _ _))

theorem stopBoth_suffix (g : Gate) : g.board.trace <:+ ((g.stopLeaf .a).stopLeaf .b).board.trace :=
  (g.a.stop_suffix g.board).trans (g.b.stop_suffix _)

/-- Every block adds to the trace. -/
theorem trace_suffix_step {g g' : Gate} {p p' : Point} (hs : Step g p g' p') : g.board.trace <:+ g'.board.trace := by
  cases hs with
  | begin hc hb => exact (List.suffix_cons _ _).trans (List.suffix_cons _ _)
  | stop hc => exact stopBoth_suffix g
  | start hp hn hr => exact Motor.start_suffix _ _ _
  | complete hp hn => exact Motor.stop_suffix _ _
  | announce hc hb hr => exact List.suffix_cons _ _
  | @finish dr result =>
    exact Gate.endDrive_rule (P := fun g' => g.board.trace <:+ g'.board.trace) (stopBoth_suffix g) (fun _ h => h)
      (fun _ h => h.trans (List.suffix_cons _ _)) dr
  | settle => exact List.suffix_cons _ _
  | _ => exact List.suffix_refl _

/-- Every block adds to a trace. -/
theorem suffix_step (trace : List Entry) : Preserved (fun g _ => trace <:+ g.board.trace) :=
  fun _ _ _ _ hs h => h.trans (trace_suffix_step hs)

theorem Task.pollSteps_suffix (t : Task) (more : Nat) : t.gate.board.trace <:+ (t.pollSteps more).gate.board.trace :=
  (suffix_step t.gate.board.trace).pollSteps (t := t) (List.suffix_refl _) more

/-- Between two moments of a log, a relay that was energized and no longer is was switched off. -/
theorem Logged.switched_off {fresh old : List Entry} {levels levels' : Pin → Bool} (ho : Logged old levels)
    (hn : Logged (fresh ++ old) levels') {p : Pin} (hp : levels p = true) (hp' : levels' p = false) :
    ∃ e ∈ fresh, e.SwitchesOff p := by
  induction fresh generalizing levels' with
  | nil =>
    have hl : levels' = levels := by
      cases old with
      | nil => exact hn.trans ho.symm
      | cons e old => exact hn.1.trans ho.1.symm
    rw [hl, hp] at hp'
    cases hp'
  | cons e fresh ih =>
    cases hb : e.levels p with
    | false =>
      obtain ⟨e', he', hs⟩ := ih hn.2 hb
      exact ⟨e', List.mem_cons_of_mem _ he', hs⟩
    | true =>
      have ha : e.after p = false := by rw [← hn.1, hp']
      refine ⟨e, List.mem_cons_self, ?_, hb⟩
      cases ho : e.output with
      | write q l =>
        rw [Entry.after_write ho] at ha
        by_cases hq : p = q
        · subst hq
          rw [Function.update_self] at ha
          rw [ha]
        · rw [Function.update_of_ne hq, hb] at ha
          cases ha
      | _ =>
        rw [Entry.after_of_not_write (by rw [ho]; nofun), hb] at ha
        cases ha

/-- Every reachable state has its trace account for the levels. -/
theorem logged_after (early : List Call) (a b : MotorSettings) (locked : Bool) (events : List Event) :
    (after early a b locked events).gate.board.Logged := by
  have hI : Preserved (fun g p => Shape g p ∧ g.board.Logged) := fun _ _ _ _ hs h =>
    ⟨shape_step hs h.1, logged_step hs h.1 h.2⟩
  refine (hI.after (fun t c h => ⟨shape_call t c h.1, h.2⟩) (fun t d lag h => ⟨shape_wait t d lag h.1, h.2⟩)
    ⟨shape_boot early a b locked, ?_⟩ events).2
  exact ⟨rfl, rfl, rfl, rfl, rfl, rfl⟩

end GateLink
