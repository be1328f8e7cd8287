/-! # Faults

    A value built by hand may point outside the lists that it refers to: a
    symbol that the grammar does not have, a rule that does not exist, a
    position beyond the input, a row without a cell for some column. The
    first such place is reported as a fault; values that come from a grammar
    text have none.
-/

namespace Predictive

/-- A place outside a list. -/
inductive Fault where
  /-- An index that is not below the length of the list. -/
  | index (length i : Nat)
  /-- A starting point beyond the end of the list. -/
  | start (length i : Nat)
  deriving DecidableEq, Repr

namespace Fault

/-- The text of a fault. -/
def message : Fault → String
  | index length i =>
    "index out of bounds: the len is " ++ toString length ++ " but the index is " ++ toString i
  | start length i =>
    "range start index " ++ toString i ++ " out of range for slice of length " ++ toString length

/-- The fault of reading at `i` in a list of the given length, if there is one. -/
def ofIndex? (length i : Nat) : Option Fault :=
  if i < length then none else some (index length i)

/-- The fault of reading from `i` on; the end of the list is a valid start. -/
def ofStart? (length i : Nat) : Option Fault :=
  if i ≤ length then none else some (start length i)

theorem ofIndex?_eq_none {length i : Nat} : ofIndex? length i = none ↔ i < length := by
  simp [ofIndex?]

theorem ofStart?_eq_none {length i : Nat} : ofStart? length i = none ↔ i ≤ length := by
  simp [ofStart?]

end Fault

/-- The value, unless there is a fault. -/
def guarded {α : Type} (fault : Option Fault) (value : α) : Except Fault α :=
  match fault with
  | some f => .error f
  | none => .ok value

theorem guarded_eq_ok_iff {α : Type} {fault : Option Fault} {value result : α} :
    guarded fault value = .ok result ↔ fault = none ∧ value = result := by
  cases fault <;> simp [guarded]

theorem guarded_eq_error_iff {α : Type} {fault : Option Fault} {value : α} {f : Fault} :
    guarded fault value = .error f ↔ fault = some f := by
  cases fault <;> simp [guarded]

end Predictive
