import GateLink.Motor

/-!
# Debouncer

The debouncer of the push-button-like inputs (`debounce.rs`): it turns periodic samples of a bouncing, noisy input into one event per
press. Its counter is a `u8` that panics on overflow, so a sample is fallible here.
-/

namespace GateLink

/-- `x + 1` of a `u8`, if it does not overflow. -/
def U8.increment (x : U8) : Option U8 := if h : x.val + 1 < 256 then some ⟨x.val + 1, h⟩ else none

theorem U8.increment_of_lt {x : U8} {n : Nat} (hx : x.val < n) (hn : n < 256) :
    x.increment = some ⟨x.val + 1, by omega⟩ := dif_pos _

/-- `Debouncer`: while armed it looks for a press, otherwise for a release. -/
structure Debouncer where
  stableSamples : U8
  armed : Bool
  stable : U8
  deriving DecidableEq, Repr

namespace Debouncer

def new (stableSamples : U8) : Debouncer where
  stableSamples := stableSamples
  armed := true
  stable := 0

/-- `Debouncer::sample`: what it returns, and the debouncer after it. -/
def sample (d : Debouncer) (pressed : Bool) : Option (Bool × Debouncer) :=
  if pressed ≠ d.armed then some (false, { d with stable := 0 })
  else
    match d.stable.increment with
    | none => none
    | some stable =>
      if stable < d.stableSamples then some (false, { d with stable := stable })
      else some (d.armed, { d with stable := 0, armed := !d.armed })

/-- Feeds samples one after the other: what was returned for each, and the debouncer after them. -/
def feed (d : Debouncer) : List Bool → Option (List Bool × Debouncer)
  | [] => some ([], d)
  | pressed :: samples =>
    match d.sample pressed with
    | none => none
    | some (returned, d) => (d.feed samples).map fun fed => (returned :: fed.1, fed.2)

/-- One sample more. -/
theorem feed_append {d d' d'' : Debouncer} {samples returned : List Bool} {pressed r : Bool}
    (h : d.feed samples = some (returned, d')) (hs : d'.sample pressed = some (r, d'')) :
    d.feed (samples ++ [pressed]) = some (returned ++ [r], d'') := by
  induction samples generalizing d returned with
  | nil =>
    obtain ⟨rfl, rfl⟩ := Prod.mk.inj (Option.some.inj h)
    simp [feed, hs]
  | cons s samples ih =>
    simp only [feed] at h
    cases hd : d.sample s with
    | none => simp [hd] at h
    | some x =>
      simp only [hd, Option.map_eq_some_iff] at h
      obtain ⟨fed, hfed, hx⟩ := h
      obtain ⟨rfl, rfl⟩ := Prod.mk.inj hx
      simp [feed, hd, ih hfed]

end Debouncer

end GateLink
