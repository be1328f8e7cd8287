/-! # Sweeping until nothing changes

    Sets that depend on each other are computed by sweeps: each sweep adds
    what the present sets call for, and a sweep that changes nothing is the
    last one. That last sweep counts too.
-/

namespace Predictive

variable {α : Type} [DecidableEq α]

/-- Sweeps at most `fuel` times, up to and including the first sweep that
    changes nothing. The result is the final value and the number of sweeps. -/
def saturate (sweep : α → α) : Nat → α → α × Nat
  | 0, a => (a, 0)
  | fuel + 1, a =>
    if sweep a = a then (a, 1)
    else
      let (b, sweeps) := saturate sweep fuel (sweep a)
      (b, sweeps + 1)

/-- What every sweep keeps holds at the end. -/
theorem saturate_induction {sweep : α → α} {motive : α → Prop}
    (step : ∀ a, motive a → motive (sweep a)) {fuel : Nat} {a : α} (h : motive a) :
    motive (saturate sweep fuel a).1 := by
  induction fuel generalizing a with
  | zero => exact h
  | succ fuel ih =>
    simp only [saturate]
    split
    · exact h
    · exact ih (step a h)

/-- With a measure that every change makes smaller, fuel above the measure is
    enough: the final value is a fixed point. -/
theorem sweep_saturate {sweep : α → α} {inv : α → Prop} (measure : α → Nat)
    (keep : ∀ a, inv a → inv (sweep a))
    (smaller : ∀ a, inv a → sweep a ≠ a → measure (sweep a) < measure a)
    {fuel : Nat} {a : α} (ha : inv a) (h : measure a < fuel) :
    sweep (saturate sweep fuel a).1 = (saturate sweep fuel a).1 := by
  induction fuel generalizing a with
  | zero => omega
  | succ fuel ih =>
    simp only [saturate]
    split
    · assumption
    · rename_i hne
      have := smaller a ha hne
      exact ih (keep a ha) (by omega)

end Predictive
