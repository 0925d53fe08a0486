import GateLink.Lemmas.Shape
import GateLink.Config

/-!
# The reverse pause

Between the moment a relay of a leaf is released and the next moment one of them is switched on, the reverse pause elapses
(`reverse_pause`). The pause is enforced in one place only, the plan of a movement: `Motor.start` itself would energize at once.
So the invariant ties the plan to the trace: a leaf that waits does so until its pause since the last release is over, and it is not
started earlier, whatever time passes between the readings of the clock and the writes to the pins.
-/

namespace GateLink

open Machine

/-- If the later entry switches on a relay of the leaf and the earlier one switches one off, the pause has elapsed in between. -/
def Entry.Apart (pause : Duration) (leaf : Leaf) (later earlier : Entry) : Prop :=
  ∀ d d', later.SwitchesOn ⟨leaf, d⟩ → earlier.SwitchesOff ⟨leaf, d'⟩ → earlier.time + pause ≤ later.time

namespace PauseAux

variable {pause : Duration} {leaf : Leaf}

/-- The trace of a board: it lies in the past, and the pause was kept. -/
structure BoardKept (pause : Duration) (leaf : Leaf) (bd : Board) : Prop where
  past : ∀ e ∈ bd.trace, e.time ≤ bd.now
  apart : bd.trace.Pairwise (Entry.Apart pause leaf)

/-- The pause since every release of the leaf is over at a time. -/
def OverAt (pause : Duration) (leaf : Leaf) (trace : List Entry) (time : Instant) : Prop :=
  ∀ e ∈ trace, ∀ d, e.SwitchesOff ⟨leaf, d⟩ → e.time + pause ≤ time

/-- A pause that is over stays so. -/
theorem OverAt.mono {trace : List Entry} {time time' : Instant} (h : OverAt pause leaf trace time) (ht : time ≤ time') :
    OverAt pause leaf trace time' :=
  fun e he d hd => Nat.le_trans (h e he d hd) ht

/-- Entries that do not switch the leaf off leave it over. -/
theorem OverAt.cons {trace : List Entry} {time : Instant} (h : OverAt pause leaf trace time) {e : Entry}
    (he : ∀ d, ¬e.SwitchesOff ⟨leaf, d⟩) : OverAt pause leaf (e :: trace) time := by
  intro x hx d hd
  rcases List.mem_cons.mp hx with rfl | hx
  · exact absurd hd (he d)
  · exact h x hx d hd

/-- Time passes. -/
theorem BoardKept.tick {bd : Board} (h : BoardKept pause leaf bd) : BoardKept pause leaf bd.tick :=
  ⟨fun e he => Nat.le_trans (h.past e he) bd.clock.now_le_tick, h.apart⟩

/-- An entry is written now. If it switches on a relay of the leaf, the pause must be over. -/
theorem BoardKept.cons {bd : Board} (h : BoardKept pause leaf bd) {e : Entry} (ht : e.time = bd.now)
    (he : ∀ d, e.SwitchesOn ⟨leaf, d⟩ → OverAt pause leaf bd.trace bd.now) {bd' : Board} (hn : bd'.now = bd.now)
    (htr : bd'.trace = e :: bd.trace) : BoardKept pause leaf bd' := by
  refine ⟨fun x hx => ?_, ?_⟩
  · rw [hn]
    rw [htr] at hx
    rcases List.mem_cons.mp hx with rfl | hx
    · exact Nat.le_of_eq ht
    · exact h.past x hx
  · rw [htr]
    refine List.pairwise_cons.mpr ⟨fun x hx d d' hon hoff => ?_, h.apart⟩
    rw [ht]
    exact he d hon x hx d' hoff

/-- A relay is released. -/
theorem BoardKept.low {bd : Board} (h : BoardKept pause leaf bd) (p : Pin) : BoardKept pause leaf (bd.write p false) :=
  h.tick.cons (e := _) rfl (fun d hd => by cases hd.1) rfl rfl

/-- A relay is energized, of another leaf or with the pause over. -/
theorem BoardKept.high {bd : Board} (h : BoardKept pause leaf bd) {p : Pin}
    (hp : p.leaf = leaf → OverAt pause leaf bd.trace bd.now) : BoardKept pause leaf (bd.write p true) := by
  refine h.tick.cons rfl (fun d hd => (hp ?_).mono bd.clock.now_le_tick) rfl rfl
  obtain rfl : p = ⟨leaf, d⟩ := by simpa using hd.1
  rfl

/-- A write to the relays of the other leaf does not switch this one off. -/
theorem not_switchesOff_of_leaf {e : Entry} {p : Pin} {l : Bool} (he : e.output = .write p l) (hp : p.leaf ≠ leaf)
    (d : Direction) : ¬e.SwitchesOff ⟨leaf, d⟩ := by
  rintro ⟨ho, -⟩
  rw [he] at ho
  obtain ⟨rfl, -⟩ : p = ⟨leaf, d⟩ ∧ _ := by simpa using ho
  exact hp rfl

/-- What the trace, the clock and a motor have to do with each other: the pause was kept, and the motor is ready only once it is
over. -/
structure PauseKept (pause : Duration) (leaf : Leaf) (g : Gate) : Prop where
  board : BoardKept pause leaf g.board
  reversePause : (g.motor leaf).reversePause = pause
  released : (g.motor leaf).state = .idle → OverAt pause leaf g.board.trace (g.motor leaf).readyAt

/-- What leaves the motor, the trace and the clock keeps the pause. -/
theorem PauseKept.congr {g g' : Gate} (h : PauseKept pause leaf g) (hm : g'.motor leaf = g.motor leaf)
    (ht : g'.board.trace = g.board.trace) (hn : g.now ≤ g'.now) : PauseKept pause leaf g' := by
  refine ⟨⟨fun e he => ?_, by rw [ht]; exact h.board.apart⟩, by rw [hm]; exact h.reversePause, by rw [hm, ht]; exact h.released⟩
  rw [ht] at he
  exact Nat.le_trans (h.board.past e he) hn

/-- An output other than a write keeps the pause. -/
theorem PauseKept.record {g : Gate} (h : PauseKept pause leaf g) {o : Output} (ho : ∀ p l, o ≠ .write p l) :
    PauseKept pause leaf (g.record o) := by
  refine ⟨h.board.cons rfl (fun d hd => absurd hd.1 (ho _ _)) rfl rfl, by simpa using h.reversePause, fun hi => ?_⟩
  have hr := h.released (by simpa using hi)
  simpa using hr.cons (fun d hd => ho _ _ hd.1)

/-- A stop of a leaf keeps the pause of every leaf. -/
theorem PauseKept.stopLeaf {g : Gate} (h : PauseKept pause leaf g) (leaf' : Leaf) :
    PauseKept pause leaf (g.stopLeaf leaf') := by
  cases hs : (g.motor leaf').state with
  | idle =>
    rw [Gate.stopLeaf_of_idle hs]
    exact h
  | running d t =>
    have hb : BoardKept pause leaf (g.stopLeaf leaf').board := by
      rw [Gate.stopLeaf_board, Motor.stop_of_running hs]
      exact ((h.board.low _).low _).tick
    by_cases hl : leaf = leaf'
    · subst hl
      refine ⟨hb, by rw [Gate.stopLeaf_motor_self, Motor.stop_reversePause]; exact h.reversePause, fun _ e he d' hd' => ?_⟩
      have hready : ((g.stopLeaf leaf).motor leaf).readyAt = (g.stopLeaf leaf).board.now + pause := by
        rw [Gate.stopLeaf_motor_self, Gate.stopLeaf_board, Motor.stop_of_running hs, ← h.reversePause]
        rfl
      rw [hready]
      exact Nat.add_le_add_right (hb.past e he) _
    · have hm : (g.stopLeaf leaf').motor leaf = g.motor leaf := Gate.stopLeaf_motor_other g hl
      refine ⟨hb, by rw [hm]; exact h.reversePause, fun hi => ?_⟩
      rw [hm] at hi ⊢
      have hr := h.released hi
      rw [Gate.stopLeaf_board, Motor.stop_of_running hs]
      exact (hr.cons (not_switchesOff_of_leaf rfl (Ne.symm hl))).cons (not_switchesOff_of_leaf rfl (Ne.symm hl))

/-- A start of an idle leaf keeps the pause of every leaf, if the clock has reached the moment its motor is ready. -/
theorem PauseKept.startLeaf {g : Gate} (h : PauseKept pause leaf g) (hw : g.Wired) {leaf' : Leaf}
    (hs : (g.motor leaf').state = .idle) (hready : (g.motor leaf').readyAt ≤ g.now) (d : Direction) :
    PauseKept pause leaf (g.startLeaf leaf' d) := by
  have hboard : (g.startLeaf leaf' d).board = (g.motor leaf').started d g.board := by
    rw [Gate.startLeaf_board, Motor.start_of_idle hs]
  by_cases hl : leaf = leaf'
  · subst hl
    have hover : OverAt pause leaf (g.board.write ⟨leaf, d.other⟩ false).trace (g.board.write ⟨leaf, d.other⟩ false).now := by
      refine ((h.released hs).mono (Nat.le_trans hready g.board.clock.now_le_tick)).cons fun d' hd' => ?_
      have hlevel : g.board.levels ⟨leaf, d'⟩ = true := hd'.2
      rw [hw leaf d', Motor.energized_idle hs d'] at hlevel
      cases hlevel
    refine ⟨?_, ?_, ?_⟩
    · rw [hboard]
      exact ((h.board.low _).high fun _ => hover).tick
    · rw [Gate.startLeaf_motor_self, Motor.start_of_idle hs]
      exact h.reversePause
    · rw [Gate.startLeaf_motor_self, Motor.start_of_idle hs]
      nofun
  · have hm : (g.startLeaf leaf' d).motor leaf = g.motor leaf := Gate.startLeaf_motor_other g hl d
    refine ⟨?_, by rw [hm]; exact h.reversePause, fun hi => ?_⟩
    · rw [hboard]
      exact ((h.board.low _).high fun he => absurd he.symm hl).tick
    · rw [hm] at hi ⊢
      rw [hboard]
      exact ((h.released hi).cons (not_switchesOff_of_leaf rfl (Ne.symm hl))).cons
        (not_switchesOff_of_leaf rfl (Ne.symm hl))

/-! ## The plan -/

/-- A leaf that waits does so until its motor is ready. -/
def WaitsReady (leaf : Leaf) (g : Gate) (dr : Drive) : Prop :=
  ∀ at', dr.phase leaf = .waiting at' → (g.motor leaf).readyAt ≤ at'

/-- In a movement, a leaf that waits does so until its motor is ready, and a pass is no earlier than its reading of the clock. -/
def LeafReady (leaf : Leaf) (g : Gate) : Point → Prop
  | .await (.moving dr _ _) => WaitsReady leaf g dr
  | .top dr => WaitsReady leaf g dr
  | .starting dr _ now => WaitsReady leaf g dr ∧ now ≤ g.now
  | .stopping dr _ now => WaitsReady leaf g dr ∧ now ≤ g.now
  | _ => True

/-- A leaf that is to start later is still ready at the next leaf. -/
theorem leafReady_afterLeaf {g : Gate} {dr : Drive} {now : Instant} (h : WaitsReady leaf g dr) (hn : now ≤ g.now)
    (leaf' : Leaf) : LeafReady leaf g (.afterLeaf dr now leaf') :=
  Point.afterLeaf_rule ⟨h, hn⟩ (fun _ => trivial) (fun _ _ => h) leaf'

/-- A leaf whose phase is set to one other than waiting does not wait, and the other leaf is as it was. -/
theorem WaitsReady.setPhase {g g' : Gate} {dr : Drive} (h : WaitsReady leaf g dr) {leaf' : Leaf} {p : Phase}
    (hp : ∀ t, p ≠ .waiting t) (hm : leaf ≠ leaf' → g'.motor leaf = g.motor leaf) :
    WaitsReady leaf g' (dr.setPhase leaf' p) := by
  intro at' hw
  by_cases hl : leaf = leaf'
  · subst hl
    rw [Drive.phase_setPhase_self] at hw
    exact absurd hw (hp at')
  · rw [Drive.phase_setPhase_other _ _ hl] at hw
    rw [hm hl]
    exact h at' hw

/-- A plan waits for the motor to be ready. -/
theorem begin_waitsReady (g : Gate) (d : Direction) : WaitsReady leaf (g.begin d) ((g.begin d).initialDrive d) := by
  intro at' hw
  rw [Gate.phase_initialDrive] at hw
  unfold plan at hw
  split at hw
  · cases hw
  · obtain rfl := Phase.waiting.inj hw
    exact Nat.le_max_right _ _

/-- Stopping a leaf does not turn the clock back. -/
theorem now_le_stopLeaf (g : Gate) (leaf' : Leaf) : g.now ≤ (g.stopLeaf leaf').now := by
  cases hs : (g.motor leaf').state with
  | idle => exact Nat.le_of_eq (by rw [Gate.stopLeaf_of_idle hs])
  | running d t =>
    have hb : (g.stopLeaf leaf').board = (g.motor leaf').released g.board := by
      rw [Gate.stopLeaf_board, Motor.stop_of_running hs]
    unfold Gate.now
    rw [hb]
    exact Nat.le_trans (Nat.le_trans g.board.clock.now_le_tick (Clock.now_le_tick _)) (Clock.now_le_tick _)

/-- Starting a leaf does not turn the clock back. -/
theorem now_le_startLeaf {g : Gate} {leaf' : Leaf} (hs : (g.motor leaf').state = .idle) (d : Direction) :
    g.now ≤ (g.startLeaf leaf' d).now := by
  have hb : (g.startLeaf leaf' d).board = (g.motor leaf').started d g.board := by
    rw [Gate.startLeaf_board, Motor.start_of_idle hs]
  unfold Gate.now
  rw [hb]
  exact Nat.le_trans (Nat.le_trans g.board.clock.now_le_tick (Clock.now_le_tick _)) (Clock.now_le_tick _)

/-- The pause is kept at every point of the task, for every leaf. -/
def Kept (pause : Leaf → Duration) (g : Gate) (p : Point) : Prop :=
  Shape g p ∧ ∀ leaf, PauseKept (pause leaf) leaf g ∧ LeafReady leaf g p

/-- Every block keeps the pause. -/
theorem kept_step (pause : Leaf → Duration) : Preserved (Kept pause) := by
  intro g p g' p' hs h
  refine ⟨shape_step hs h.1, fun leaf => ?_⟩
  obtain ⟨hk, hr⟩ := h.2 leaf
  have hshape := h.1
  cases hs with
  | rest | refuse | block => exact ⟨hk, trivial⟩
  | takePending hp => exact ⟨hk.congr (by simp) rfl (Nat.le_refl _), trivial⟩
  | takeCommand hw hc => exact ⟨hk.congr (by simp) rfl (Nat.le_refl _), trivial⟩
  | takeReset hw hc hrs => exact ⟨hk.congr (by simp) rfl (Nat.le_refl _), trivial⟩
  | @begin c d hc hb =>
    have h1 : PauseKept (pause leaf) leaf (g.modify (·.setDirection d)) := hk.congr (by simp) rfl (Nat.le_refl _)
    have h2 := (h1.record (o := .start d) nofun).record (o := .notify) nofun
    exact ⟨h2.congr (by simp [Gate.begin]) rfl (Clock.now_le_tick _), begin_waitsReady g d⟩
  | stop hc => exact ⟨(hk.stopLeaf .a).stopLeaf .b, trivial⟩
  | look hb => exact ⟨hk.congr (by simp) rfl (Clock.now_le_tick _), by simpa [LeafReady, WaitsReady] using hr⟩
  | @start dr leaf' now at' r hw hn hrun =>
    have hi : (g.motor leaf').state = .idle := (hshape.phase leaf').idle (by rw [hw]; nofun)
    have hready : (g.motor leaf').readyAt ≤ g.now :=
      Nat.le_trans ((h.2 leaf').2.1 at' hw) (Nat.le_trans hn (h.2 leaf').2.2)
    exact ⟨hk.startLeaf hshape.wired hi hready dr.direction,
      hr.1.setPhase nofun (fun hl => Gate.startLeaf_motor_other g hl _),
      Nat.le_trans hr.2 (now_le_startLeaf hi dr.direction)⟩
  | skip hw hn hrun => exact ⟨hk, hr.1.setPhase nofun (fun _ => rfl), hr.2⟩
  | keep hw => exact ⟨hk, leafReady_afterLeaf hr.1 hr.2 _⟩
  | @complete dr leaf' now at' hw hn =>
    exact ⟨hk.stopLeaf leaf', leafReady_afterLeaf (hr.1.setPhase (p := .done) nofun (fun hl => Gate.stopLeaf_motor_other g hl))
      (Nat.le_trans hr.2 (now_le_stopLeaf g leaf')) _⟩
  | readClock => exact ⟨hk.congr (by simp) rfl (Clock.now_le_tick _), by simpa [LeafReady, WaitsReady] using hr⟩
  | sameCommand hc => exact ⟨hk.congr (by simp) rfl (Nat.le_refl _), by simpa [LeafReady, WaitsReady] using hr⟩
  | interrupt hc hne => exact ⟨hk.congr (by simp) rfl (Nat.le_refl _), trivial⟩
  | barrier hc hb => exact ⟨hk.congr (by simp) rfl (Nat.le_refl _), by simpa [LeafReady, WaitsReady] using hr⟩
  | announce hc hb hr' =>
    have h1 : PauseKept (pause leaf) leaf g.takeWindLockReset := hk.congr (by simp) rfl (Nat.le_refl _)
    exact ⟨h1.record (o := .notify) nofun, by simpa [LeafReady, WaitsReady] using hr⟩
  | @finish dr result =>
    exact ⟨Gate.endDrive_rule ((hk.stopLeaf .a).stopLeaf .b) (fun _ h => h.congr (by simp) rfl (Nat.le_refl _))
      (fun _ h => h.record (o := .finish) nofun) dr, trivial⟩
  | @settle result =>
    have h1 : PauseKept (pause leaf) leaf
        (({ g with pending := result } : Gate).modify ({ · with currentDirection := .dirIdle })) :=
      hk.congr (by simp) rfl (Nat.le_refl _)
    have h2 : PauseKept (pause leaf) leaf
        ((({ g with pending := result } : Gate).modify ({ · with currentDirection := .dirIdle })).modify
          ({ · with position := g.snapshot.classify })) :=
      h1.congr (by simp) rfl (Nat.le_refl _)
    exact ⟨h2.record (o := .notify) nofun, trivial⟩
  | _ => exact ⟨hk, hr⟩

/-- At boot, every relay is driven low while it is low, at time 0. -/
theorem boot_trace (early : List Call) (a b : MotorSettings) (locked : Bool) :
    ∀ e ∈ (boot early a b locked).gate.board.trace,
      e.time = 0 ∧ (∀ p, e.levels p = false) ∧ ∀ p, e.output ≠ .write p true := by
  have update {levels : Pin → Bool} (h : ∀ p, levels p = false) (q : Pin) : ∀ p, Function.update levels q false p = false := by
    intro p
    by_cases hp : p = q
    · rw [hp, Function.update_self]
    · rw [Function.update_of_ne hp, h]
  have h0 : ∀ p : Pin, (fun _ => false) p = false := fun _ => rfl
  have h1 := update h0 ⟨.a, .opening⟩
  have h2 := update h1 ⟨.a, .closing⟩
  have h3 := update h2 ⟨.b, .opening⟩
  have h4 := update h3 ⟨.b, .closing⟩
  exact List.forall_mem_cons.mpr ⟨⟨rfl, h4, nofun⟩, List.forall_mem_cons.mpr ⟨⟨rfl, h3, nofun⟩,
    List.forall_mem_cons.mpr ⟨⟨rfl, h2, nofun⟩, List.forall_mem_cons.mpr ⟨⟨rfl, h1, nofun⟩,
      List.forall_mem_cons.mpr ⟨⟨rfl, h0, nofun⟩, List.forall_mem_nil _⟩⟩⟩⟩⟩

/-- After boot, no pause has begun. -/
theorem kept_boot (early : List Call) (a b : MotorSettings) (locked : Bool) :
    (boot early a b locked).Holds (Kept fun leaf => (settingsAt a b leaf).reversePause) := by
  have ht := boot_trace early a b locked
  refine ⟨shape_boot early a b locked, fun leaf => ⟨⟨⟨fun e he => ?_, ?_⟩, ?_, fun _ e he d hd => ?_⟩, trivial⟩⟩
  · rw [(ht e he).1]
    exact Nat.zero_le _
  · exact List.Pairwise.imp_of_mem (fun he _ _ d d' hon => absurd hon.1 ((ht _ he).2.2 _))
      (List.pairwise_of_forall fun _ _ => trivial)
  · cases leaf <;> rfl
  · have hlevel := hd.2
    rw [(ht e he).2.1] at hlevel
    cases hlevel

/-- A leaf whose motor is left alone while the task sleeps waits as it did. -/
theorem LeafReady.await_congr {g g' : Gate} {w : Await} (h : LeafReady leaf g (.await w)) (hm : g'.motor leaf = g.motor leaf) :
    LeafReady leaf g' (.await w) := by
  cases w with
  | moving dr dl y =>
    intro at' hw
    rw [hm]
    exact h at' hw
  | _ => trivial

/-- A call keeps the pauses. -/
theorem kept_call (pause : Leaf → Duration) (t : Task) (c : Call) (h : t.Holds (Kept pause)) :
    (t.call c).Holds (Kept pause) := by
  refine ⟨shape_call t c h.1, fun leaf => ?_⟩
  have hm : (t.call c).gate.motor leaf = t.gate.motor leaf := by simp [Task.call]
  exact ⟨(h.2 leaf).1.congr hm rfl (Nat.le_refl _), LeafReady.await_congr (h.2 leaf).2 hm⟩

/-- Waiting keeps the pauses. -/
theorem kept_wait (pause : Leaf → Duration) (t : Task) (sleep : Duration) (lag : Nat → Duration)
    (h : t.Holds (Kept pause)) : (t.wait sleep lag).Holds (Kept pause) := by
  refine ⟨shape_wait t sleep lag h.1, fun leaf => ?_⟩
  have hm : (t.wait sleep lag).gate.motor leaf = t.gate.motor leaf := by simp [Task.wait]
  exact ⟨(h.2 leaf).1.congr hm rfl (Nat.le_add_right _ _), LeafReady.await_congr (h.2 leaf).2 hm⟩

end PauseAux

open PauseAux

/-- The reverse pause. In every run, whatever the settings of the two leaves: whenever a relay of a leaf is switched on, at least
the reverse pause has elapsed since any relay of that leaf was switched off before. -/
theorem reverse_pause (early : List Call) (a b : MotorSettings) (locked : Bool) (events : List Event) (leaf : Leaf) :
    (after early a b locked events).gate.board.trace.Pairwise fun later earlier =>
      ∀ d d', later.SwitchesOn ⟨leaf, d⟩ → earlier.SwitchesOff ⟨leaf, d'⟩ →
        earlier.time + (settingsAt a b leaf).reversePause ≤ later.time :=
  ((((kept_step _).after (kept_call _) (kept_wait _) (kept_boot early a b locked) events).2 leaf).1.board.apart)

end GateLink
