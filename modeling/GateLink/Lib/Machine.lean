import Mathlib.Data.List.Basic

/-!
# Machines: runs over events, and loops that halt by themselves

Two shapes of execution, over arbitrary state and event types. `run` folds a step function over a list of events: it is what
an outside world does to a system. `loop` repeats a turn until the turn says it is over: it is what a task does when it is
polled, and the bound only makes the repetition structural (`loop_rule` shows it is never the reason a loop ends).
-/

namespace Machine

universe u v

variable {σ : Type u} {ε : Type v}

/-! ## Runs -/

/-- The state a list of events leads to. -/
def run (step : σ → ε → σ) (s : σ) (events : List ε) : σ := events.foldl step s

@[simp] theorem run_nil (step : σ → ε → σ) (s : σ) : run step s [] = s := rfl

@[simp] theorem run_cons (step : σ → ε → σ) (s : σ) (e : ε) (events : List ε) :
    run step s (e :: events) = run step (step s e) events := rfl

/-- A run goes on where the first part of it has ended. -/
theorem run_append (step : σ → ε → σ) (s : σ) (before after : List ε) :
    run step s (before ++ after) = run step (run step s before) after :=
  List.foldl_append

/-- Every event of the list is allowed in the state it happens in. -/
def Allowed (step : σ → ε → σ) (ok : σ → ε → Prop) : σ → List ε → Prop
  | _, [] => True
  | s, e :: events => ok s e ∧ Allowed step ok (step s e) events

/-- A run decides whether it is allowed. -/
instance decidableAllowed {step : σ → ε → σ} {ok : σ → ε → Prop} [∀ s e, Decidable (ok s e)] :
    (s : σ) → (events : List ε) → Decidable (Allowed step ok s events)
  | _, [] => isTrue trivial
  | s, e :: events => @instDecidableAnd _ _ _ (decidableAllowed (step s e) events)

/-- What every allowed event preserves holds after every run of allowed events. -/
theorem run_invariant {step : σ → ε → σ} {ok : σ → ε → Prop} {P : σ → Prop}
    (hstep : ∀ s e, ok s e → P s → P (step s e)) {s : σ} (hs : P s) {events : List ε} (hok : Allowed step ok s events) :
    P (run step s events) := by
  induction events generalizing s with
  | nil => exact hs
  | cons e events ih =>
    rw [run_cons]
    exact ih (hstep s e hok.1 hs) hok.2

/-- What every event preserves holds after every run. -/
theorem run_always {step : σ → ε → σ} {P : σ → Prop} (hstep : ∀ s e, P s → P (step s e)) {s : σ} (hs : P s) (events : List ε) :
    P (run step s events) := by
  induction events generalizing s with
  | nil => exact hs
  | cons e events ih =>
    rw [run_cons]
    exact ih (hstep s e hs)

/-- Events that are allowed in every state are allowed along every run. -/
theorem allowed_of_forall {step : σ → ε → σ} {ok : ε → Prop} {events : List ε} (h : ∀ e ∈ events, ok e) (s : σ) :
    Allowed step (fun _ => ok) s events := by
  induction events generalizing s with
  | nil => trivial
  | cons e events ih => exact ⟨h e List.mem_cons_self, ih (fun x hx => h x (List.mem_cons_of_mem _ hx)) _⟩

/-- A run that is allowed is allowed by less strict a rule. -/
theorem Allowed.mono {step : σ → ε → σ} {ok ok' : σ → ε → Prop} (hok : ∀ s e, ok s e → ok' s e) {s : σ} {events : List ε}
    (h : Allowed step ok s events) : Allowed step ok' s events := by
  induction events generalizing s with
  | nil => trivial
  | cons e events ih => exact ⟨hok s e h.1, ih h.2⟩

/-- Events that are allowed in two ways. -/
theorem Allowed.and {step : σ → ε → σ} {ok ok' : σ → ε → Prop} {s : σ} {events : List ε} (h : Allowed step ok s events)
    (h' : Allowed step ok' s events) : Allowed step (fun s e => ok s e ∧ ok' s e) s events := by
  induction events generalizing s with
  | nil => trivial
  | cons e events ih => exact ⟨⟨h.1, h'.1⟩, ih h.2 h'.2⟩

/-- What holds all along a run holds at first and all along the run from the first event on. -/
theorem forall_prefix_cons {step : σ → ε → σ} {P : σ → Prop} {s : σ} (hs : P s) (e : ε) (events : List ε) :
    (∀ before later, e :: events = before ++ later → P (run step s before)) ↔
      ∀ before later, events = before ++ later → P (run step (step s e) before) := by
  refine ⟨fun h before later hsplit => ?_, fun h before later hsplit => ?_⟩
  · exact h (e :: before) later (by rw [hsplit, List.cons_append])
  · cases before with
    | nil => exact hs
    | cons e' before =>
      rw [List.cons_append, List.cons.injEq] at hsplit
      obtain ⟨rfl, hsplit⟩ := hsplit
      exact h before later hsplit

/-- Of a run with no events there is one state. -/
theorem forall_prefix_nil {step : σ → ε → σ} {P : σ → Prop} {s : σ} (hs : P s) (before later : List ε) (h : [] = before ++ later) :
    P (run step s before) := by
  rw [(List.append_eq_nil_iff.mp h.symm).1]
  exact hs

/-- The sum of the weights of the events of a run, each in the state it happens in. -/
def total (step : σ → ε → σ) (weight : σ → ε → Nat) : σ → List ε → Nat
  | _, [] => 0
  | s, e :: events => weight s e + total step weight (step s e) events

/-- The counting rule: what holds of a state with a count, and with the weight of an event added after the event, holds after every run
with the total of its weights added. -/
theorem run_counted {step : σ → ε → σ} {weight : σ → ε → Nat} {P : σ → Nat → Prop}
    (hstep : ∀ s e n, P s n → P (step s e) (n + weight s e)) {s : σ} {n : Nat} (hs : P s n) (events : List ε) :
    P (run step s events) (n + total step weight s events) := by
  induction events generalizing s n with
  | nil => exact hs
  | cons e events ih =>
    rw [run_cons, total, ← Nat.add_assoc]
    exact ih (hstep s e n hs)

/-- The potential rule: if no event raises the potential by more than its weight, no run raises it by more than the total of
its weights. -/
theorem run_potential {step : σ → ε → σ} {weight : σ → ε → Nat} {potential : σ → Nat}
    (hstep : ∀ s e, potential (step s e) ≤ potential s + weight s e) (s : σ) (events : List ε) :
    potential (run step s events) ≤ potential s + total step weight s events :=
  run_counted (P := fun s n => potential s ≤ n) (fun s e _ h => Nat.le_trans (hstep s e) (Nat.add_le_add_right h _))
    (Nat.le_refl _) events

section History

variable {η : Type v} {step : σ → ε → σ} {note : σ → η → ε → η}

/-- A machine that notes something about its run as it goes, and does not look at its notes. -/
def noting (step : σ → ε → σ) (note : σ → η → ε → η) (s : σ × η) (e : ε) : σ × η := (step s.1 e, note s.1 s.2 e)

/-- The notes do not change the run. -/
theorem run_noting_fst (s : σ × η) (events : List ε) : (run (noting step note) s events).1 = run step s.1 events := by
  induction events generalizing s with
  | nil => rfl
  | cons e events ih => exact ih (noting step note s e)

/-- What every allowed event preserves, of the state and what is noted, holds after every run of allowed events, with something noted. -/
theorem run_noting_invariant {ok : σ × η → ε → Prop} {P : σ → η → Prop}
    (hstep : ∀ s n e, ok (s, n) e → P s n → P (step s e) (note s n e)) {s : σ} {n : η} (hs : P s n) {events : List ε}
    (hok : Allowed (noting step note) ok (s, n) events) : ∃ n', P (run step s events) n' := by
  have hrun := run_invariant (P := fun s : σ × η => P s.1 s.2) (fun s e => hstep s.1 s.2 e) hs hok
  rw [run_noting_fst] at hrun
  exact ⟨_, hrun⟩

/-- A property that an event preserves exactly if it is allowed by the notes, as long as the events are fair and what the notes say of
the state is kept. -/
theorem forall_prefix_iff_allowed_noting {fair : ε → Prop} {ok : σ × η → ε → Prop} {P : σ → Prop} {Kept : σ → η → Prop}
    (hkept : ∀ s n e, fair e ∧ ok (s, n) e → Kept s n → Kept (step s e) (note s n e))
    (hstep : ∀ s n e, fair e → Kept s n → P s → (P (step s e) ↔ ok (s, n) e)) {s : σ} {n : η} (hs : P s) (hn : Kept s n)
    {events : List ε} (hfair : ∀ e ∈ events, fair e) :
    (∀ before later, events = before ++ later → P (run step s before)) ↔ Allowed (noting step note) ok (s, n) events := by
  induction events generalizing s n with
  | nil => exact ⟨fun _ => trivial, fun _ => forall_prefix_nil hs⟩
  | cons e events ih =>
    obtain ⟨he, hrest⟩ := List.forall_mem_cons.mp hfair
    have hfirst := hstep s n e he hn hs
    rw [forall_prefix_cons hs]
    refine ⟨fun h => ?_, fun ⟨hok, hlater⟩ => ?_⟩
    · have hok : ok (s, n) e := hfirst.mp (h [] events rfl)
      exact ⟨hok, (ih (hfirst.mpr hok) (hkept s n e ⟨he, hok⟩ hn) hrest).mp h⟩
    · exact (ih (hfirst.mpr hok) (hkept s n e ⟨he, hok⟩ hn) hrest).mpr hlater

end History

/-! ## Parts -/

section Parts

variable {τ : Type u} {ε' : Type v} {step : σ → ε → σ} {step' : τ → ε' → τ} {part : σ → τ} {events' : σ → ε → List ε'}

/-- The events of a part in a run of the whole, each event of which is some of them. -/
def partEvents (step : σ → ε → σ) (events' : σ → ε → List ε') : σ → List ε → List ε'
  | _, [] => []
  | s, e :: events => events' s e ++ partEvents step events' (step s e) events

/-- If every step of the whole is a run of the part, so is every run of it. -/
theorem run_part (hstep : ∀ s e, part (step s e) = run step' (part s) (events' s e)) (s : σ) (events : List ε) :
    part (run step s events) = run step' (part s) (partEvents step events' s events) := by
  induction events generalizing s with
  | nil => rfl
  | cons e events ih => rw [run_cons, partEvents, run_append, ← hstep, ih]

/-- Both parts of an allowed run are allowed. -/
theorem allowed_append {ok : σ → ε → Prop} {s : σ} {before later : List ε} :
    Allowed step ok s (before ++ later) ↔ Allowed step ok s before ∧ Allowed step ok (run step s before) later := by
  induction before generalizing s with
  | nil => simp [Allowed]
  | cons e before ih =>
    rw [List.cons_append, Allowed, Allowed, ih, run_cons, and_assoc]

/-- Events that are allowed in the whole are allowed in its part. -/
theorem allowed_part (hstep : ∀ s e, part (step s e) = run step' (part s) (events' s e)) {ok : σ → ε → Prop} {ok' : τ → ε' → Prop}
    (hok : ∀ s e, ok s e → Allowed step' ok' (part s) (events' s e)) {s : σ} {events : List ε} (h : Allowed step ok s events) :
    Allowed step' ok' (part s) (partEvents step events' s events) := by
  induction events generalizing s with
  | nil => trivial
  | cons e events ih =>
    rw [partEvents, allowed_append, ← hstep]
    exact ⟨hok s e h.1, ih h.2⟩

end Parts

/-! ## Loops -/

/-- What one turn of a loop decides: go around again, or halt. -/
inductive Turn (σ : Type u) where
  | again (s : σ)
  | halt (s : σ)

/-- The state a turn leaves, whether or not the loop goes on. -/
def Turn.state : Turn σ → σ
  | .again s => s
  | .halt s => s

@[simp] theorem Turn.state_again (s : σ) : (Turn.again s).state = s := rfl

@[simp] theorem Turn.state_halt (s : σ) : (Turn.halt s).state = s := rfl

/-- Repeat `turn` until it halts, at most `bound` times. -/
def loop (turn : σ → Turn σ) : Nat → σ → σ
  | 0, s => s
  | bound + 1, s =>
    match turn s with
    | .again s' => loop turn bound s'
    | .halt s' => s'

/-- A turn that goes around again leaves one less for the rest of the loop. -/
theorem loop_succ_again {turn : σ → Turn σ} {s s' : σ} (h : turn s = .again s') (bound : Nat) :
    loop turn (bound + 1) s = loop turn bound s' := by
  rw [loop, h]

/-- A turn that halts ends the loop. -/
theorem loop_succ_halt {turn : σ → Turn σ} {s s' : σ} (h : turn s = .halt s') (bound : Nat) :
    loop turn (bound + 1) s = s' := by
  rw [loop, h]

/-- What every turn preserves, a loop preserves. -/
theorem loop_invariant {turn : σ → Turn σ} {P : σ → Prop} (hturn : ∀ s, P s → P (turn s).state) {s : σ} (hs : P s)
    (bound : Nat) : P (loop turn bound s) := by
  induction bound generalizing s with
  | zero => exact hs
  | succ bound ih =>
    have h := hturn s hs
    cases ht : turn s with
    | again s' =>
      rw [loop_succ_again ht]
      rw [ht] at h
      exact ih h
    | halt s' =>
      rw [loop_succ_halt ht]
      rw [ht] at h
      exact h

/-- A loop that takes a turn: what the first turn establishes and every turn preserves. -/
theorem loop_succ_invariant {turn : σ → Turn σ} {P : σ → Prop} (hturn : ∀ s, P s → P (turn s).state) {s : σ}
    (hs : P (turn s).state) (bound : Nat) : P (loop turn (bound + 1) s) := by
  cases ht : turn s with
  | again s' =>
    rw [loop_succ_again ht]
    rw [ht] at hs
    exact loop_invariant hturn hs bound
  | halt s' =>
    rw [loop_succ_halt ht]
    rw [ht] at hs
    exact hs

/-- The rule of a loop that halts: as long as it goes around, `P` holds and `μ` decreases; where it halts, `Q` holds. With
`μ` below the bound the loop halts by itself, so `Q` holds of its result. -/
theorem loop_rule {turn : σ → Turn σ} {P Q : σ → Prop} (μ : σ → Nat)
    (hagain : ∀ s s', P s → turn s = .again s' → P s' ∧ μ s' < μ s)
    (hhalt : ∀ s s', P s → turn s = .halt s' → Q s') {s : σ} (hs : P s) {bound : Nat} (hb : μ s < bound) :
    Q (loop turn bound s) := by
  induction bound generalizing s with
  | zero => exact absurd hb (Nat.not_lt_zero _)
  | succ bound ih =>
    cases ht : turn s with
    | again s' =>
      rw [loop_succ_again ht]
      obtain ⟨hs', hμ⟩ := hagain s s' hs ht
      exact ih hs' (Nat.lt_of_lt_of_le hμ (Nat.le_of_lt_succ hb))
    | halt s' =>
      rw [loop_succ_halt ht]
      exact hhalt s s' hs ht

end Machine
