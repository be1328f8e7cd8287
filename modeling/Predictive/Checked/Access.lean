import Predictive.Grammar.Basic

/-! # Look-ups that can fail

    Elsewhere in this library a number that points outside of its list stands
    for a default: an empty set, a name without letters. The modules of this
    directory make every look-up in its place and in its order, and end with a
    fault where there is nothing to find. What they compute is otherwise the
    same, so wherever they end without a fault no default has been used.

    Reading a text and splitting an input look nothing up by number.
-/

namespace Predictive.Checked

variable {α β : Type}

/-- The element at a place. -/
def read (xs : List α) (i : Nat) : Except Fault α :=
  match xs[i]? with
  | some x => .ok x
  | none => .error (.index xs.length i)

/-- The elements from a place on. -/
def readFrom (xs : List α) (i : Nat) : Except Fault (List α) :=
  guarded (Fault.ofStart? xs.length i) (xs.drop i)

/-- The list with a new element at a place. -/
def update (xs : List α) (i : Nat) (f : α → α) : Except Fault (List α) := do
  let x ← read xs i
  return xs.set i (f x)

/-! ### Symbols and rules -/

/-- The name of a symbol. -/
def nameOf (g : Grammar) (x : Symbol) : Except Fault String := do
  let entry ← read g.symbols x
  return entry.name

/-- The kind of a symbol. -/
def kindOf (g : Grammar) (x : Symbol) : Except Fault Kind := do
  let entry ← read g.symbols x
  return entry.kind

/-- The names of a sequence of symbols. -/
def namesOf (g : Grammar) (xs : List Symbol) : Except Fault (List String) := xs.mapM (nameOf g)

/-- A sequence of symbols as text. -/
def phrase (g : Grammar) (xs : List Symbol) : Except Fault String := do
  let names ← namesOf g xs
  return " ".intercalate names

/-- A rule as text. -/
def ruleText (g : Grammar) (r : Rule) : Except Fault String := do
  let left ← nameOf g r.left
  let right ← phrase g r.shown
  return left ++ " -> " ++ right

/-- The `i`-th rule as text. -/
def ruleTextAt (g : Grammar) (i : Nat) : Except Fault String := do
  let r ← read g.rules i
  ruleText g r

end Predictive.Checked
