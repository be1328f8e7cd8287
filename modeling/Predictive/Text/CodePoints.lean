/-! # Sets of code points

    A Unicode property is given by stripes: every `step`-th code point from
    `first` to `last`. Alternating upper and lower case letters make stripes
    of step two; a plain range has step one.
-/

namespace Predictive.Text

/-- The code points `first`, `first + step`, … up to `last`. -/
structure Stripe where
  first : Nat
  last : Nat
  step : Nat
  deriving DecidableEq, Repr

namespace Stripe

/-- Membership in one stripe. -/
def covers (s : Stripe) (n : Nat) : Bool :=
  s.first ≤ n && n ≤ s.last && (n - s.first) % s.step == 0

/-- Membership in one of the stripes, which are listed by first code point:
    the search ends at the first stripe that begins beyond `n`. -/
def anyCovers : List Stripe → Nat → Bool
  | [], _ => false
  | s :: stripes, n => if n < s.first then false else s.covers n || anyCovers stripes n

/-- The stripes that plain ranges of code points make. -/
def ofRanges (ranges : List (Nat × Nat)) : List Stripe :=
  ranges.map fun (first, last) => ⟨first, last, 1⟩

end Stripe

end Predictive.Text
