import GateLink.Lemmas.Stopped
import GateLink.Theorems.Safety
import GateLink.Config

/-!
# STOP

A STOP that is accepted always takes effect at the next poll (`stop_takes_effect`). It does not keep every relay from being
energized from that moment on (`stop_energizes`): the task serves its pending command and a due timer before it looks at the slot.
That is all, and the same poll releases the relay again (`stop_energizes_at_most_once`).
-/

namespace GateLink

open Machine

namespace StopAux

/-- The wind lock is off, and a STOP is in the slot or has taken effect. -/
def StopGiven (g : Gate) (p : Point) : Prop :=
  g.controls.windLocked = false ∧ (g.controls.command = some .stop ∨ Stopped g p)

/-- A STOP stays in the slot until it takes effect. -/
theorem stopGiven_step : Preserved StopGiven := by
  intro g p g' p' hs h
  obtain ⟨hl, hc | hstopped⟩ := h
  · cases hs with
    | @takeCommand w c hw hcm =>
      rw [hc] at hcm
      obtain rfl : GateCommand.stop = c := Option.some.inj hcm
      exact ⟨hl, Or.inr ⟨hl, Or.inl rfl, rfl⟩⟩
    | @interrupt dr dl y c hcm hne =>
      rw [hc] at hcm
      obtain rfl : GateCommand.stop = c := Option.some.inj hcm
      exact ⟨hl, Or.inr ⟨hl, Or.inl rfl, rfl⟩⟩
    | @sameCommand dr dl y hcm =>
      rw [hc] at hcm
      cases hd : dr.direction <;> rw [hd] at hcm <;> cases hcm
    | stop hr => exact ⟨by simpa using hl, Or.inl (by simpa using hc)⟩
    | start hw hn hr => exact ⟨by simpa using hl, Or.inl (by simpa using hc)⟩
    | complete hw hn => exact ⟨by simpa using hl, Or.inl (by simpa using hc)⟩
    | finish => exact ⟨by rw [Gate.endDrive_controls]; exact hl, Or.inl (by rw [Gate.endDrive_controls]; exact hc)⟩
    | _ => exact ⟨hl, Or.inl hc⟩
  · have h' := (stopped_step hs ⟨hstopped, .refl _ g.board.trace⟩).1
    exact ⟨h'.unlocked, Or.inr h'⟩

/-- Calls that start no movement leave a STOP in the slot. -/
theorem calls_stopGiven {t : Task} {calls : List Call} (hl : t.gate.controls.windLocked = false)
    (hc : t.gate.controls.command = some .stop) (h : ∀ c ∈ calls, ¬c.Starts) :
    (run Task.next t (calls.map .call)).gate.controls.windLocked = false ∧
      (run Task.next t (calls.map .call)).gate.controls.command = some .stop := by
  induction calls generalizing t with
  | nil => exact ⟨hl, hc⟩
  | cons c calls ih =>
    obtain ⟨hl', hc'⟩ := Call.apply_of_not_starts hl (h c List.mem_cons_self)
    have hs : (t.call c).gate.controls.command = some .stop := by
      rcases hc' with he | he
      · exact he.trans hc
      · exact he
    exact ih (t := t.call c) hl' hs (fun x hx => h x (List.mem_cons_of_mem _ hx))

/-- What the task is before the poll that finds the STOP: reachable, with the STOP in its slot. -/
theorem stop_called (early : List Call) (a b : MotorSettings) (locked : Bool) (events : List Event) {calls : List Call}
    (hl : (after early a b locked events).gate.controls.windLocked = false) (hcalls : ∀ c ∈ calls, ¬c.Starts) :
    let t := run Task.next ((after early a b locked events).call .stop) (calls.map .call)
    t.Holds Shape ∧ t.gate.controls.windLocked = false ∧ t.gate.controls.command = some .stop := by
  intro t
  have hreach : t = after early a b locked (events ++ .call .stop :: calls.map .call) := by
    rw [after, run_append, run_cons]
    rfl
  have hstop : ((after early a b locked events).call .stop).gate.controls.windLocked = false ∧
      ((after early a b locked events).call .stop).gate.controls.command = some .stop := by
    simp [Task.call, Call.apply, Controls.stop, Controls.sendUnlessLocked, hl, Controls.send]
  exact ⟨hreach ▸ shape_after early a b locked _, calls_stopGiven hstop.1 hstop.2 hcalls⟩

end StopAux

open StopAux SafetyAux

/-- STOP is always effective at the next poll. Whatever the gate does when `stop()` is accepted, and whatever is called before the
next poll other than a command that starts a movement: when that poll is over, every relay is released, the task waits for a
command with nothing pending and nothing in the slot, and every relay stays released until such a command. -/
theorem stop_takes_effect (early : List Call) (a b : MotorSettings) (locked : Bool) (events : List Event) (calls : List Call)
    (sleep : Duration) (lag : Nat → Duration) (later : List Event)
    (hl : (after early a b locked events).gate.controls.windLocked = false) (hcalls : ∀ c ∈ calls, ¬c.Starts)
    (hlater : ∀ e ∈ later, ¬e.Starts) :
    let t := run Task.next ((after early a b locked events).call .stop) (calls.map .call)
    let t' := (t.wait sleep lag).polls
    (∀ p, t'.gate.board.levels p = false) ∧ t'.await = .idle ∧ t'.gate.pending = none ∧ t'.gate.controls.command = none ∧
      ∀ p, (run Task.next t' later).gate.board.levels p = false := by
  intro t t'
  obtain ⟨hshape, hl', hc⟩ := stop_called early a b locked events hl hcalls
  have hgiven : t'.Holds StopGiven := stopGiven_step.pollSteps (t := t.wait sleep lag) ⟨hl', Or.inl hc⟩ _
  have hshape' : t'.Holds Shape := shape_step.pollSteps (shape_wait t sleep lag hshape) _
  have hsilent : t'.Silent := Task.pollSteps_silent (Nat.le_refl _)
  have hcommand : t'.gate.controls.command = none := by
    unfold Task.Silent at hsilent
    split at hsilent
    · exact hsilent.elim
    · exact hsilent.1
    · exact hsilent.1
  have hstopped : t'.Holds Stopped := hgiven.2.resolve_left (by rw [hcommand]; nofun)
  have hidle : t'.await = .idle ∧ t'.gate.pending = none := by
    have hcalm := hstopped.calm
    unfold Task.Silent at hsilent
    cases ha : t'.await with
    | settled s =>
      rw [ha] at hsilent
      exact hsilent.elim
    | idle =>
      rw [ha] at hcalm
      exact ⟨rfl, hcalm⟩
    | moving dr dl y =>
      rw [ha] at hcalm
      exact hcalm.elim
  refine ⟨stopped_low hstopped hshape', hidle.1, hidle.2, hcommand, ?_⟩
  exact stopped_low (stopped_run hstopped hlater).1 (shape_step.always shape_call shape_wait hshape' later)

/-- A STOP to the installation, half a second into an opening. -/
theorem stop_takes_effect_opening :
    let t := after [] (settingsOf leafA 0) (settingsOf leafB 0) false [.call .open, .poll 0 steady]
    (∃ dr dl y, t.await = .moving dr dl y) ∧ t.gate.board.levels ⟨.a, .opening⟩ = true ∧
      ∀ p, (((t.call .stop).wait (fromMillis 500) steady).polls).gate.board.levels p = false :=
  ⟨⟨_, _, _, rfl⟩, by decide +kernel,
    (stop_takes_effect [] (settingsOf leafA 0) (settingsOf leafB 0) false [.call .open, .poll 0 steady] [] (fromMillis 500) steady []
      (by decide +kernel) (by simp) (by simp)).1⟩

/-! ## What STOP does not keep from happening -/

/-- The entry switches no relay on. -/
def Entry.NoneOn (e : Entry) : Prop := ∀ p, ¬e.SwitchesOn p

/-- What the task does before it looks at the slot may energize a relay: it executes its pending command, or it serves its timer
while nothing blocks the movement and a leaf that waits is due. -/
def Task.StartsFirst (t : Task) : Prop :=
  match t.await with
  | .settled _ => t.gate.pending ≠ none
  | .idle => False
  | .moving dr deadline yielded =>
    yielded = true ∧ deadline ≤ t.gate.tick.now ∧ t.gate.controls.blocked dr.direction = none ∧
      ∃ leaf startAt, dr.phase leaf = .waiting startAt ∧ startAt ≤ t.gate.tick.tick.now

namespace StopAux

/-- No leaf that waits is due. -/
def NoneDue (dr : Drive) (now : Instant) : Prop := ∀ leaf at', dr.phase leaf = .waiting at' → now < at'

/-- No leaf that waits is due in this pass. -/
def NoneDueAt (g : Gate) : Point → Prop
  | .top dr => g.controls.blocked dr.direction = none → NoneDue dr g.tick.now
  | .starting dr _ now => NoneDue dr now
  | .stopping dr _ now => NoneDue dr now
  | .execute _ => False
  | _ => True

theorem noneDue_afterLeaf {g : Gate} {dr : Drive} {now : Instant} (h : NoneDue dr now) (leaf : Leaf) :
    NoneDueAt g (.afterLeaf dr now leaf) :=
  Point.afterLeaf_rule h (fun _ => trivial) (fun _ _ => trivial) leaf

/-- A pass in which no leaf that waits is due adds passive entries only. -/
theorem noneDue_within (trace : List Entry) :
    PreservedWithin (fun g p => NoneDueAt g p ∧ Trace.Adds Entry.Passive trace g.board.trace) := by
  intro g p g' p' h hp hs
  obtain ⟨hnone, ht⟩ := h
  have hpassive := ht.trans (passive_step hs
    (fun c d he => by
      subst he
      exact hnone.elim)
    (fun dr leaf now at' he hw => by
      subst he
      exact hnone leaf at' hw))
  refine ⟨?_, hpassive⟩
  cases hs with
  | takePending | takeCommand | takeReset | rest => exact absurd rfl (hp _)
  | readClock | timer | sameCommand | interrupt | barrier | announce | suspend => exact absurd rfl (hp _)
  | refuse hr hb => exact hnone.elim
  | begin hr hb => exact hnone.elim
  | stop hr => exact hnone.elim
  | block hb => trivial
  | look hb => exact hnone hb
  | notDue hw => exact hnone
  | start hw hn hr => exact absurd hn (Nat.not_le_of_lt (hnone _ _ hw))
  | skip hw hn hr => exact absurd hn (Nat.not_le_of_lt (hnone _ _ hw))
  | keep hw => exact noneDue_afterLeaf hnone _
  | @complete dr leaf now at' hw hn =>
    refine noneDue_afterLeaf (fun leaf' at'' hw' => ?_) _
    by_cases hl : leaf' = leaf
    · subst hl
      rw [Drive.phase_setPhase_self] at hw'
      cases hw'
    · rw [Drive.phase_setPhase_other _ _ hl] at hw'
      exact hnone leaf' at'' hw'
  | finish => trivial
  | settle => trivial

/-- The first poll after a STOP ends with the gate stopped. -/
theorem poll_stopped {t : Task} (hl : t.gate.controls.windLocked = false) (hc : t.gate.controls.command = some .stop) :
    t.poll.Holds Stopped := by
  have hsettled {r : Task} (h : r.Holds (Ending .stop)) (hs : r.Settled) : r.Holds Stopped := by
    obtain ⟨s, ha⟩ := hs
    have hr := h.result
    refine ⟨h.unlocked, Or.inr h.command, ?_⟩
    rw [ha] at hr ⊢
    exact hr
  refine Task.poll_rule (P := fun s => s.gate.controls.windLocked = false ∧ s.gate.controls.command = some .stop)
    (Q := Task.Holds Stopped) ⟨hl, hc⟩ fun s hs => ?_
  rcases ending_turn hs.1 hs.2 (Or.inl rfl) with ⟨sn, c', ha, hp, he⟩ | ⟨dr, dl, ha, hd, he⟩ | ⟨s', he, ht⟩
  · have hr := (ending_within .stop).execute (g := { s.gate with pending := none }) (c := c') ⟨hs.1, hs.2, trivial⟩
    exact Or.inl ⟨_, he, hsettled hr, fun _ => ⟨hr.unlocked, hr.command⟩⟩
  · have hr : (s.gate.tick.driveLoop dr).Holds (Ending .stop) := (ending_within .stop).driveLoop ⟨hs.1, hs.2, trivial⟩
    exact Or.inl ⟨_, he, hsettled hr, fun _ => ⟨hr.unlocked, hr.command⟩⟩
  · exact Or.inr ⟨s', he, ht.stopped⟩

/-- The first poll after a STOP energizes nothing, unless what it does before it looks at the slot does. -/
theorem poll_passive {t : Task} (hl : t.gate.controls.windLocked = false) (hc : t.gate.controls.command = some .stop)
    (hf : ¬t.StartsFirst) : Trace.Adds Entry.Passive t.gate.board.trace t.poll.gate.board.trace := by
  refine Task.poll_rule
    (P := fun s => s.gate.controls.windLocked = false ∧ s.gate.controls.command = some .stop ∧ ¬s.StartsFirst ∧
      Trace.Adds Entry.Passive t.gate.board.trace s.gate.board.trace)
    (Q := fun s => Trace.Adds Entry.Passive t.gate.board.trace s.gate.board.trace) ⟨hl, hc, hf, .refl _ _⟩ fun s hs => ?_
  obtain ⟨hl', hc', hf', ht⟩ := hs
  rcases ending_turn hl' hc' (Or.inl rfl) with ⟨sn, c', ha, hp, he⟩ | ⟨dr, dl, ha, hd, he⟩ | ⟨s', he, htaken⟩
  · refine absurd ?_ hf'
    unfold Task.StartsFirst
    rw [ha]
    show s.gate.pending ≠ none
    rw [hp]
    nofun
  · have hnone : s.gate.tick.controls.blocked dr.direction = none → NoneDue dr s.gate.tick.tick.now := by
      intro hb leaf at' hw
      refine Nat.lt_of_not_le fun hn => hf' ?_
      unfold Task.StartsFirst
      rw [ha]
      exact ⟨rfl, hd, hb, leaf, at', hw, hn⟩
    have hr : (s.gate.tick.driveLoop dr).Holds (Ending .stop) := (ending_within .stop).driveLoop ⟨hl', hc', trivial⟩
    have hadds : (s.gate.tick.driveLoop dr).Holds
        (fun g p => NoneDueAt g p ∧ Trace.Adds Entry.Passive t.gate.board.trace g.board.trace) :=
      (noneDue_within t.gate.board.trace).driveLoop ⟨hnone, ht⟩
    refine Or.inl ⟨_, he, fun _ => hadds.2, fun hn => ⟨hr.unlocked, hr.command, ?_, hadds.2⟩⟩
    rcases (driveLoop_outcome s.gate.tick dr).await with ⟨hs', -⟩ | ⟨⟨dr', dl', ha'⟩, -⟩
    · exact absurd hs' hn
    · unfold Task.StartsFirst
      rw [ha']
      rintro ⟨hy, -⟩
      cases hy
  · exact Or.inr ⟨s', he, ht.trans htaken.passive⟩

end StopAux

/-- A relay can be switched on after a STOP. The installation opens, leaf B waits its delay of three seconds, and STOP is called
before the poll at which that delay is over: the timer is served first, and leaf B is started. -/
theorem stop_energizes :
    ¬∀ (early : List Call) (a b : MotorSettings) (locked : Bool) (events later : List Event),
      (after early a b locked events).gate.controls.windLocked = false → (∀ e ∈ later, ¬e.Starts) →
        Trace.Adds Entry.NoneOn (after early a b locked events).gate.board.trace
          (run Task.next ((after early a b locked events).call .stop) later).gate.board.trace := by
  intro h
  have hadds := h [] (settingsOf leafA 0) (settingsOf leafB 0) false [.call .open, .poll 0 steady]
    [.poll (fromSecs 3) steady] (by decide +kernel) (by simp [Event.Starts])
  have hcount := hadds.countP_eq (q := fun e => decide (e.SwitchesOn ⟨.b, .opening⟩))
    (fun e he => decide_eq_false (he ⟨.b, .opening⟩))
  revert hcount
  decide +kernel

/-- What STOP leaves to be energized. From the call on, no relay is switched on until a command that starts a movement, but for
the first poll of the task: what it does before it looks at the slot (`Task.StartsFirst`) may switch one on. That poll ends with
every relay released. -/
theorem stop_energizes_at_most_once (early : List Call) (a b : MotorSettings) (locked : Bool) (events : List Event)
    (calls : List Call) (sleep : Duration) (lag : Nat → Duration) (later : List Event)
    (hl : (after early a b locked events).gate.controls.windLocked = false) (hcalls : ∀ c ∈ calls, ¬c.Starts)
    (hlater : ∀ e ∈ later, ¬e.Starts) :
    let t₀ := after early a b locked events
    let t := (run Task.next (t₀.call .stop) (calls.map .call)).wait sleep lag
    t.gate.board.trace = t₀.gate.board.trace ∧
    (¬t.StartsFirst → Trace.Adds Entry.NoneOn t.gate.board.trace t.poll.gate.board.trace) ∧
    (∀ p, t.poll.gate.board.levels p = false) ∧
    Trace.Adds Entry.NoneOn t.poll.gate.board.trace (run Task.next t.poll later).gate.board.trace := by
  intro t₀ t
  obtain ⟨hshape, hl', hc⟩ := stop_called early a b locked events hl hcalls
  have hnone (e : Entry) (h : e.Passive) : e.NoneOn := h.not_switchesOn
  have hstopped : t.poll.Holds Stopped := poll_stopped (t := t) hl' hc
  refine ⟨(calls_board calls (t₀.call .stop)).2, fun hf => (poll_passive (t := t) hl' hc hf).mono hnone, ?_,
    (stopped_run hstopped hlater).2.mono hnone⟩
  exact stopped_low hstopped (shape_step.poll (shape_wait _ sleep lag hshape))

/-- The poll that energizes leaf B ends with leaf B released. -/
theorem stop_energizes_at_most_once_opening :
    let t := after [] (settingsOf leafA 0) (settingsOf leafB 0) false [.call .open, .poll 0 steady]
    let t' := (t.call .stop).wait (fromSecs 3) steady
    t'.poll.gate.board.trace.countP (fun e => decide (e.SwitchesOn ⟨.b, .opening⟩)) = 1 ∧
      t'.gate.board.trace = t.gate.board.trace ∧ ∀ p, t'.poll.gate.board.levels p = false :=
  have h := stop_energizes_at_most_once [] (settingsOf leafA 0) (settingsOf leafB 0) false [.call .open, .poll 0 steady] []
    (fromSecs 3) steady [] (by decide +kernel) (by simp) (by simp)
  ⟨by decide +kernel, h.1, h.2.2.1⟩

end GateLink
