import GateLink.Lemmas.Order
import GateLink.Lib.Trace
import GateLink.Config

/-!
# Overlapping leaves

With settings as those of the installation, leaf A is switched on no later than leaf B in every opening, leaf B no later than leaf A
in every closing, and every step settles with leaf B no further open than leaf A (`leaves_in_order`), whatever interrupts the
movements and however late the polls come. The positions are `ordered_step`; here the switching times are read off the trace,
section by section: a section is what was written since the latest start of a movement.
-/

namespace GateLink

open Machine

namespace OverlapAux

/-- In a section of the trace, the leading leaf of a direction is switched on no later than the following one. -/
def LeadFirst (entries : List Entry) : Prop :=
  ∀ e ∈ entries, ∀ e' ∈ entries, ∀ d : Direction, e.SwitchesOn ⟨d.lead, d⟩ → e'.SwitchesOn ⟨d.follow, d⟩ → e.time ≤ e'.time

/-- An entry in the latest section that switches on a relay. -/
def OnSinceStart (bd : Board) (p : Pin) (e : Entry) : Prop :=
  e ∈ bd.trace.takeWhile (fun x => !x.isStart) ∧ e.SwitchesOn p

/-- The trace lies in the past, and the leading leaf was switched on first. -/
structure BoardLed (bd : Board) : Prop where
  past : ∀ e ∈ bd.trace, e.time ≤ bd.now
  led : ∀ section' ∈ bd.trace.splitOnP Entry.isStart, LeadFirst section'

/-- A reading of the clock keeps it. -/
theorem BoardLed.tick {bd : Board} (h : BoardLed bd) : BoardLed bd.tick :=
  ⟨fun e he => Nat.le_trans (h.past e he) bd.clock.now_le_tick, h.led⟩

/-- An entry is written now. If it switches the leading leaf on, the following one was not switched on earlier. -/
theorem BoardLed.cons {bd bd' : Board} (h : BoardLed bd) {e : Entry} (hs : e.isStart = false) (ht : e.time = bd.now)
    (he : ∀ d : Direction, e.SwitchesOn ⟨d.lead, d⟩ → ∀ e', OnSinceStart bd ⟨d.follow, d⟩ e' → bd.now ≤ e'.time)
    (hn : bd'.now = bd.now) (htr : bd'.trace = e :: bd.trace) : BoardLed bd' := by
  refine ⟨fun x hx => ?_, ?_⟩
  · rw [hn]
    rw [htr] at hx
    rcases List.mem_cons.mp hx with rfl | hx
    · exact Nat.le_of_eq ht
    · exact h.past x hx
  · rw [htr]
    refine Trace.forall_splitOnP_cons hs (fun x hx x' hx' d hon hon' => ?_) h.led
    obtain ⟨rest, hr⟩ := Trace.splitOnP_eq_cons Entry.isStart bd.trace
    have hold : LeadFirst (bd.trace.takeWhile fun x => !x.isStart) := h.led _ (hr ▸ List.mem_cons_self)
    rcases List.mem_cons.mp hx with rfl | hmem
    · rcases List.mem_cons.mp hx' with rfl | hmem'
      · exact Nat.le_refl _
      · rw [ht]
        exact he d hon x' ⟨hmem', hon'⟩
    · rcases List.mem_cons.mp hx' with rfl | hmem'
      · rw [ht]
        exact h.past x (List.takeWhile_subset _ hmem)
      · exact hold x hmem x' hmem' d hon hon'

/-- A release keeps the leading leaf first. -/
theorem BoardLed.low {bd : Board} (h : BoardLed bd) (p : Pin) : BoardLed (bd.write p false) :=
  h.tick.cons (e := _) rfl rfl (fun d hd => by cases hd.1) rfl rfl

/-- A relay that is switched on keeps the leading leaf first, if the following one was not switched on earlier. -/
theorem BoardLed.high {bd : Board} (h : BoardLed bd) {p : Pin}
    (hp : ∀ d : Direction, p = ⟨d.lead, d⟩ → ∀ e, OnSinceStart bd ⟨d.follow, d⟩ e → bd.tick.now ≤ e.time) :
    BoardLed (bd.write p true) := by
  refine h.tick.cons (e := _) rfl rfl (fun d hd e' he' => hp d ?_ e' he') rfl rfl
  simpa using hd.1

/-- An output other than a write keeps the leading leaf first. -/
theorem BoardLed.record {bd : Board} (h : BoardLed bd) {o : Output} (ho : ∀ p l, o ≠ .write p l) : BoardLed (bd.record o) := by
  by_cases hs : ∃ d, o = .start d
  · obtain ⟨d, rfl⟩ := hs
    refine ⟨fun x hx => ?_, Trace.forall_splitOnP_cut rfl (fun _ hx => by cases hx) h.led⟩
    rcases List.mem_cons.mp hx with rfl | hx
    · exact Nat.le_refl _
    · exact h.past x hx
  · refine h.cons (e := _) ?_ rfl (fun d hd => absurd hd.1 (ho _ _)) rfl rfl
    cases o with
    | start d => exact absurd ⟨d, rfl⟩ hs
    | _ => rfl

/-! ## What is switched on since the start -/

/-- A release switches nothing on. -/
theorem OnSinceStart.of_low {bd : Board} {p q : Pin} {e : Entry} (h : OnSinceStart (bd.write q false) p e) :
    OnSinceStart bd p e := by
  obtain ⟨hm, hon⟩ := h
  rw [Board.write_trace, List.takeWhile_cons_of_pos rfl] at hm
  rcases List.mem_cons.mp hm with rfl | hm
  · cases hon.1
  · exact ⟨hm, hon⟩

/-- A relay that is switched on adds one entry, written now. -/
theorem OnSinceStart.of_high {bd : Board} {p q : Pin} {e : Entry} (h : OnSinceStart (bd.write q true) p e) :
    OnSinceStart bd p e ∨ q = p ∧ e.time = bd.tick.now := by
  obtain ⟨hm, hon⟩ := h
  rw [Board.write_trace, List.takeWhile_cons_of_pos rfl] at hm
  rcases List.mem_cons.mp hm with rfl | hm
  · exact Or.inr ⟨by simpa using hon.1, rfl⟩
  · exact Or.inl ⟨hm, hon⟩

/-- A stop switches nothing on. -/
theorem OnSinceStart.of_stopLeaf {g : Gate} {leaf : Leaf} {p : Pin} {e : Entry} (h : OnSinceStart (g.stopLeaf leaf).board p e) :
    OnSinceStart g.board p e := by
  cases hs : (g.motor leaf).state with
  | idle =>
    rw [Gate.stopLeaf_of_idle hs] at h
    exact h
  | running d t =>
    rw [Gate.stopLeaf_board, Motor.stop_of_running hs] at h
    exact OnSinceStart.of_low (OnSinceStart.of_low h)

/-- A start switches on the relay of its leaf, now. -/
theorem OnSinceStart.of_startLeaf {g : Gate} (hsteady : g.Steady) {leaf : Leaf} (hs : (g.motor leaf).state = .idle)
    {d : Direction} {p : Pin} {e : Entry} (h : OnSinceStart (g.startLeaf leaf d).board p e) :
    OnSinceStart g.board p e ∨ p.leaf = leaf ∧ e.time = g.now := by
  rw [Gate.startLeaf_board, Motor.start_of_idle hs] at h
  rcases OnSinceStart.of_high h with h | ⟨rfl, ht⟩
  · exact Or.inl (OnSinceStart.of_low h)
  · refine Or.inr ⟨rfl, ht.trans ?_⟩
    simp [Board.now, Gate.now, Clock.tick_of_steady hsteady]

/-- Stopping a leaf keeps the order. -/
theorem BoardLed.stopLeaf {g : Gate} (h : BoardLed g.board) (leaf : Leaf) : BoardLed (g.stopLeaf leaf).board := by
  cases hs : (g.motor leaf).state with
  | idle =>
    rw [Gate.stopLeaf_of_idle hs]
    exact h
  | running d t =>
    rw [Gate.stopLeaf_board, Motor.stop_of_running hs]
    exact ((h.low _).low _).tick

/-- A leaf is started: if it leads, the following one was not switched on earlier in the movement. -/
theorem BoardLed.startLeaf {g : Gate} (h : BoardLed g.board) (hsteady : g.Steady) {leaf : Leaf}
    (hs : (g.motor leaf).state = .idle) {d : Direction}
    (hlead : leaf = d.lead → ∀ e, OnSinceStart g.board ⟨d.follow, d⟩ e → g.now ≤ e.time) :
    BoardLed (g.startLeaf leaf d).board := by
  rw [Gate.startLeaf_board, Motor.start_of_idle hs]
  refine ((h.low _).high fun d' hp e he => ?_).tick
  obtain ⟨rfl, rfl⟩ : leaf = d'.lead ∧ d = d' := by simpa using hp
  have hn : (g.board.write ⟨d.lead, d.other⟩ false).tick.now = g.now := by
    simp [Board.now, Gate.now, Clock.tick_of_steady hsteady]
  rw [hn]
  exact hlead rfl e (OnSinceStart.of_low he)

/-! ## The invariant -/

/-- A leaf that waits has not been switched on in the movement. -/
def WaitsOff (g : Gate) (dr : Drive) : Prop :=
  ∀ leaf s, dr.phase leaf = .waiting s → ∀ d e, ¬OnSinceStart g.board ⟨leaf, d⟩ e

/-- In a closing, leaf A has not been switched on before leaf B is due. -/
def DueInPass (g : Gate) (dr : Drive) : Prop :=
  dr.direction = .closing → ∀ s, dr.phase .b = .waiting s → s ≤ g.now →
    ∀ e, OnSinceStart g.board ⟨.a, .closing⟩ e → g.now ≤ e.time

/-- What the trace says of the movement in flight, at every point of the task. -/
def SwitchedSoFar (g : Gate) : Point → Prop
  | .await (.moving dr _ _) | .top dr | .starting dr .a _ | .stopping dr .b _ => WaitsOff g dr
  | .stopping dr .a _ | .starting dr .b _ => WaitsOff g dr ∧ DueInPass g dr
  | _ => True

/-- The trace at every point of the task. -/
def Led (g : Gate) (p : Point) : Prop := BoardLed g.board ∧ SwitchedSoFar g p

/-- The order depends on the trace only, and time may pass. -/
theorem BoardLed.congr {bd bd' : Board} (h : BoardLed bd) (ht : bd'.trace = bd.trace) (hn : bd.now ≤ bd'.now) :
    BoardLed bd' :=
  ⟨fun e he => Nat.le_trans (h.past e (ht ▸ he)) hn, ht ▸ h.led⟩

/-- What was switched on depends on the trace only. -/
theorem WaitsOff.congr {g g' : Gate} {dr : Drive} (h : WaitsOff g dr) (ht : g'.board.trace = g.board.trace) :
    WaitsOff g' dr := by
  intro leaf s hs d e he
  unfold OnSinceStart at he
  rw [ht] at he
  exact h leaf s hs d e he

/-- A notification is no switch. -/
theorem OnSinceStart.of_notify {bd : Board} {p : Pin} {e : Entry} (h : OnSinceStart (bd.record .notify) p e) :
    OnSinceStart bd p e := by
  obtain ⟨hm, hon⟩ := h
  rw [Board.record_trace, List.takeWhile_cons_of_pos rfl] at hm
  rcases List.mem_cons.mp hm with rfl | hm
  · cases hon.1
  · exact ⟨hm, hon⟩

/-- Nothing is switched on yet at the start of a movement. -/
theorem begin_waitsOff (g : Gate) (d : Direction) (dr : Drive) : WaitsOff (g.begin d) dr := by
  intro leaf s _ d' e he
  have hstart : OnSinceStart ((g.modify (·.setDirection d)).board.record (.start d)) ⟨leaf, d'⟩ e := OnSinceStart.of_notify he
  obtain ⟨hm, hon⟩ := hstart
  rw [Board.record_trace, List.takeWhile_cons_of_neg (by simp [Entry.isStart])] at hm
  cases hm

/-- A leaf that is started does not wait any more; the other one was not switched on. -/
theorem WaitsOff.startLeaf {g : Gate} {dr : Drive} (h : WaitsOff g dr) (hsteady : g.Steady) {leaf : Leaf}
    (hs : (g.motor leaf).state = .idle) (stopAt : Instant) :
    WaitsOff (g.startLeaf leaf dr.direction) (dr.setPhase leaf (.running stopAt)).setMoved := by
  intro leaf' s hw d e he
  rw [Drive.phase_setMoved] at hw
  by_cases hl : leaf' = leaf
  · subst hl
    rw [Drive.phase_setPhase_self] at hw
    cases hw
  · rw [Drive.phase_setPhase_other _ _ hl] at hw
    rcases OnSinceStart.of_startLeaf hsteady hs he with he | ⟨he, -⟩
    · exact h leaf' s hw d e he
    · exact hl he

/-- A leaf that is done does not wait any more. -/
theorem WaitsOff.setDone {g g' : Gate} {dr : Drive} (h : WaitsOff g dr)
    (hon : ∀ p e, OnSinceStart g'.board p e → OnSinceStart g.board p e) (leaf : Leaf) :
    WaitsOff g' (dr.setPhase leaf .done) := by
  intro leaf' s hw d e he
  by_cases hl : leaf' = leaf
  · subst hl
    rw [Drive.phase_setPhase_self] at hw
    cases hw
  · rw [Drive.phase_setPhase_other _ _ hl] at hw
    exact h leaf' s hw d e (hon _ e he)

/-- After leaf B the pass is over. -/
theorem switched_afterLeaf_b {g : Gate} {dr : Drive} (h : WaitsOff g dr) (now : Instant) :
    SwitchedSoFar g (.afterLeaf dr now .b) :=
  Point.afterLeaf_b_rule (fun _ => trivial) (fun _ _ => h)

/-- What a following leaf has been switched on for when the leading one is started: nothing, or this very pass. -/
theorem led_of_start {g : Gate} {dr : Drive} {leaf : Leaf} {now at' : Instant}
    (hl : SwitchedSoFar g (.starting dr leaf now)) (ho : Order g (.starting dr leaf now)) (hw : dr.phase leaf = .waiting at')
    (hle : at' ≤ g.now) (hlead : leaf = dr.direction.lead) (e : Entry)
    (he : OnSinceStart g.board ⟨dr.direction.follow, dr.direction⟩ e) : g.now ≤ e.time := by
  have hwaits (ho : g.InOrder dr.direction dr.phase) (hl : WaitsOff g dr) : False := by
    obtain ⟨s, hs, -⟩ := ho.starts at' (hlead ▸ hw)
    exact hl _ s hs _ e he
  cases leaf with
  | a => exact (hwaits ho hl).elim
  | b =>
    have hd : dr.direction = .closing := by
      cases hdir : dr.direction with
      | opening =>
        rw [hdir] at hlead
        cases hlead
      | closing => rfl
    rw [hd] at he
    exact hl.2 hd at' hw hle e he

/-- Every block keeps the leading leaf first. -/
theorem led_step : Preserved (fun g p => ((Shape g p ∧ Timed g p) ∧ Ordered g p) ∧ Led g p) := by
  intro g p g' p' hs h
  refine ⟨ordered_step hs h.1, ?_⟩
  obtain ⟨⟨⟨hshape, htimed⟩, hordered⟩, hb, hl⟩ := h
  have hsteady := htimed.steady
  have hclock : g.now ≤ g'.now := Nat.le_of_eq (now_step hs hsteady).symm
  cases hs with
  | takePending hp => exact ⟨hb.congr rfl hclock, trivial⟩
  | takeCommand hw hc => exact ⟨hb.congr rfl hclock, trivial⟩
  | takeReset hw hc hr => exact ⟨hb.congr rfl hclock, trivial⟩
  | rest | refuse | block => exact ⟨hb, trivial⟩
  | @begin c d hc hblocked =>
    have h1 : BoardLed (g.modify (·.setDirection d)).board := hb.congr rfl (Nat.le_refl _)
    have h2 := (h1.record (o := .start d) nofun).record (o := .notify) nofun
    exact ⟨h2.tick, begin_waitsOff g d _⟩
  | stop hc => exact ⟨(hb.stopLeaf .a).stopLeaf (g := g.stopLeaf .a) .b, trivial⟩
  | look hblocked => exact ⟨hb.congr rfl hclock, WaitsOff.congr hl rfl⟩
  | @notDue dr leaf now hw =>
    cases leaf with
    | a =>
      refine ⟨hb, hl, fun hd s hs hle e he => ?_⟩
      have ho : g.InOrder dr.direction dr.phase := hordered.order
      obtain ⟨s', hs', -⟩ := ho.starts s (by rw [hd]; exact hs)
      rw [hd] at hs'
      exact absurd he (hl .a s' hs' .closing e)
    | b => exact ⟨hb, hl.1⟩
  | @start dr leaf now at' r hw hn hrun =>
    obtain ⟨-, rfl⟩ := htimed.leaves
    have hi : (g.motor leaf).state = .idle := (hshape.phase leaf).idle (by rw [hw]; nofun)
    have hb' : BoardLed (g.startLeaf leaf dr.direction).board :=
      hb.startLeaf hsteady hi (fun hlead e he => led_of_start hl hordered.order hw hn hlead e he)
    have hnow : (g.startLeaf leaf dr.direction).now = g.now :=
      Gate.startLeaf_now hsteady leaf _
    cases leaf with
    | a =>
      refine ⟨hb', WaitsOff.startLeaf hl hsteady hi _, fun hd s hs hle e he => ?_⟩
      rcases OnSinceStart.of_startLeaf hsteady hi he with he | ⟨-, ht⟩
      · exact absurd he (hl .a at' hw .closing e)
      · rw [ht]
        exact Nat.le_of_eq hnow
    | b => exact ⟨hb', WaitsOff.startLeaf hl.1 hsteady hi _⟩
  | @skip dr leaf now at' hw hn hrun =>
    have htl := htimed.leaves.1 leaf
    rw [hw] at htl
    exact absurd ((Motor.runTime_eq_none_iff _ _).mp hrun) htl
  | @keep dr leaf now hw =>
    cases leaf with
    | a => exact ⟨hb, hl⟩
    | b => exact ⟨hb, switched_afterLeaf_b hl now⟩
  | @complete dr leaf now at' hw hn =>
    have hon (p : Pin) (e : Entry) (he : OnSinceStart (g.stopLeaf leaf).board p e) : OnSinceStart g.board p e :=
      OnSinceStart.of_stopLeaf he
    have hnow : (g.stopLeaf leaf).now = g.now := Gate.stopLeaf_now hsteady leaf
    cases leaf with
    | a =>
      refine ⟨hb.stopLeaf .a, WaitsOff.setDone hl.1 hon .a, fun hd s hs hle e he => ?_⟩
      rw [hnow] at hle ⊢
      exact hl.2 hd s hs hle e (hon _ e he)
    | b => exact ⟨hb.stopLeaf .b, switched_afterLeaf_b (WaitsOff.setDone hl hon .b) now⟩
  | readClock => exact ⟨hb.congr rfl hclock, WaitsOff.congr hl rfl⟩
  | timer hd => exact ⟨hb, hl⟩
  | sameCommand hc => exact ⟨hb.congr rfl hclock, WaitsOff.congr hl rfl⟩
  | interrupt hc hne => exact ⟨hb.congr rfl hclock, trivial⟩
  | barrier hc hbar => exact ⟨hb.congr rfl hclock, WaitsOff.congr hl rfl⟩
  | announce hc hbar hr =>
    have h1 : BoardLed g.takeWindLockReset.board := hb.congr rfl (Nat.le_refl _)
    refine ⟨h1.record (o := .notify) nofun, fun leaf s hs d e he => ?_⟩
    have he' : OnSinceStart g.takeWindLockReset.board ⟨leaf, d⟩ e := OnSinceStart.of_notify he
    exact hl leaf s hs d e he'
  | suspend hc hbar hr => exact ⟨hb, hl⟩
  | @finish dr result =>
    have hboth : BoardLed ((g.stopLeaf .a).stopLeaf .b).board := (hb.stopLeaf .a).stopLeaf (g := g.stopLeaf .a) .b
    exact ⟨Gate.endDrive_rule (P := fun g => BoardLed g.board) hboth (fun _ h => h.congr rfl (Nat.le_refl _))
      (fun _ h => h.record (o := .finish) nofun) dr, trivial⟩
  | @settle result =>
    have h1 : BoardLed (({ g with pending := result } : Gate).modify
        ({ · with currentDirection := .dirIdle, position := g.snapshot.classify })).board := hb.congr rfl (Nat.le_refl _)
    exact ⟨h1.record (o := .notify) nofun, trivial⟩

/-- What writes nothing while the task sleeps leaves the leading leaf first. -/
theorem Led.await_congr {g g' : Gate} {w : Await} (h : Led g (.await w)) (ht : g'.board.trace = g.board.trace)
    (hn : g.now ≤ g'.now) : Led g' (.await w) := by
  refine ⟨h.1.congr ht hn, ?_⟩
  have hl := h.2
  cases w with
  | moving dr dl y => exact WaitsOff.congr hl ht
  | _ => trivial

/-- A call keeps the trace as it is. -/
theorem led_call (t : Task) (c : Call) (h : t.Holds Led) : (t.call c).Holds Led := Led.await_congr h rfl (Nat.le_refl _)

/-- Waiting keeps the trace as it is. -/
theorem led_wait (t : Task) (sleep : Duration) (lag : Nat → Duration) (h : t.Holds Led) : (t.wait sleep lag).Holds Led :=
  Led.await_congr h rfl (Nat.le_add_right _ _)

/-- It holds after boot. -/
theorem led_boot (early : List Call) (a b : MotorSettings) (locked : Bool) : (boot early a b locked).Holds Led := by
  have h0 : BoardLed (Board.new (early.foldl (fun c call => call.apply c) Controls.new)) := by
    refine ⟨fun _ he => (by cases he), ?_⟩
    show ∀ section' ∈ [[]], LeadFirst section'
    intro section' hs e he
    obtain rfl := List.mem_singleton.mp hs
    cases he
  have h4 := (((h0.low ⟨.a, .opening⟩).low ⟨.a, .closing⟩).low ⟨.b, .opening⟩).low ⟨.b, .closing⟩
  refine ⟨?_, trivial⟩
  show BoardLed (Board.record _ .notify)
  refine BoardLed.record ?_ nofun
  exact h4.congr rfl (Nat.le_refl _)

end OverlapAux

open OverlapAux

/-- Overlapping leaves stay in order. Let both leaves take the same time to open and the same time to close, with overruns of at
least a millisecond, let leaf A start first to open and leaf B first to close, each with its reverse pause to spare, and let leaf B
not be restored further open than leaf A. Then in every run with one reading of the clock per poll, in every movement, leaf A's open
relay is switched on no later than leaf B's, and leaf B's close relay no later than leaf A's, and no step settles with leaf B further
open than leaf A. -/
theorem leaves_in_order (early : List Call) (a b : MotorSettings) (locked : Bool) (events : List Event)
    (hopen : a.timing.openDuration = b.timing.openDuration) (hclose : a.timing.closeDuration = b.timing.closeDuration)
    (ha : ticksPerMilli ≤ a.endStopOverrun) (hb : ticksPerMilli ≤ b.endStopOverrun)
    (hopenFirst : a.timing.openInitialDelay + a.reversePause ≤ b.timing.openInitialDelay)
    (hcloseFirst : b.timing.closeInitialDelay + b.reversePause ≤ a.timing.closeInitialDelay)
    (hpos : b.initialPosition ≤ a.initialPosition) (he : ∀ e ∈ events, e.Steady) :
    let t := after early a b locked events
    (∀ movement ∈ t.gate.board.trace.splitOnP Entry.isStart, ∀ e ∈ movement, ∀ e' ∈ movement,
      (e.SwitchesOn ⟨.a, .opening⟩ → e'.SwitchesOn ⟨.b, .opening⟩ → e.time ≤ e'.time) ∧
        (e.SwitchesOn ⟨.b, .closing⟩ → e'.SwitchesOn ⟨.a, .closing⟩ → e.time ≤ e'.time)) ∧
    ∀ s, t.await = .settled s → s.leafBPosition ≤ s.leafAPosition := by
  intro t
  have hok : Allowed Task.next (fun _ => Event.Steady) (boot early a b locked) events := allowed_of_forall he _
  have hboot : (boot early a b locked).Holds Ordered := by
    refine ⟨fun d => ?_, fun leaf => ?_, hpos⟩
    · cases d with
      | opening => exact ⟨hopen, hopenFirst⟩
      | closing => exact ⟨hclose.symm, hcloseFirst⟩
    · cases leaf <;> exact Nat.zero_le _
  have hrun : t.Holds (fun g p => ((Shape g p ∧ Timed g p) ∧ Ordered g p) ∧ Led g p) :=
    led_step.run
      (fun t c _ h => ⟨⟨⟨shape_call t c h.1.1.1, timed_call t c h.1.1.2⟩, ordered_call t c h.1.2⟩, led_call t c h.2⟩)
      (fun t d lag hs h =>
        ⟨⟨⟨shape_wait t d lag h.1.1.1, timed_wait t d hs h.1.1.2⟩, ordered_wait t d lag h.1.2⟩, led_wait t d lag h.2⟩)
      ⟨⟨⟨shape_boot early a b locked, timed_boot early locked ha hb⟩, hboot⟩, led_boot early a b locked⟩ hok
  refine ⟨fun movement hm e hmem e' hmem' => ?_, fun s hs => ?_⟩
  · have hled := hrun.2.1.led movement hm e hmem e' hmem'
    exact ⟨hled .opening, hled .closing⟩
  · have hshape := hrun.1.1.1
    have horder := hrun.1.2.order
    rw [hs] at hshape horder
    have hover : t.gate.b.position ≤ t.gate.a.position := horder
    rw [hshape.2.1, hshape.2.2]
    exact hover

/-- The installation, interrupted while both leaves open. -/
theorem leaves_in_order_stopped :
    let t := after [] (settingsOf leafA 0) (settingsOf leafB 0) false
      [.call .open, .poll 0 steady, .poll (fromSecs 3) steady, .call .stop, .poll (fromSecs 5) steady]
    t.await = .settled ⟨136, 85, false⟩ ∧ ∀ s, t.await = .settled s → s.leafBPosition ≤ s.leafAPosition :=
  ⟨by decide +kernel,
    (leaves_in_order [] (settingsOf leafA 0) (settingsOf leafB 0) false _ rfl rfl (by decide) (by decide) (by decide) (by decide)
      (by decide) (by simp [Event.Steady])).2⟩

end GateLink
