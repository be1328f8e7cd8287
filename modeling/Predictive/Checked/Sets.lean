import Predictive.Checked.Access
import Predictive.Follow

/-! # FIRST and FOLLOW with every look-up

    The sets as they are computed: a list with a set for each symbol, which is
    read and changed in place while the rules are gone through. A right side is
    scanned by the kinds of its symbols; the set of a symbol is looked up only
    for a non-terminal.
-/

namespace Predictive.Checked

/-- What can begin a sequence of symbols, and whether the whole sequence can
    vanish. `ε` is passed over, or it ends the scan as a terminal does. -/
def scan (g : Grammar) (passes : Bool) (first : SymbolSets) :
    List Symbol → Except Fault (SymbolSet × Bool)
  | [] => return (∅, true)
  | x :: xs => do
    match ← kindOf g x with
    | .nonTerminal =>
      let s ← read first x
      if Symbol.epsilon ∈ s then
        let (rest, vanishes) ← scan g passes first xs
        return (s.erase Symbol.epsilon ∪ rest, vanishes)
      else return (s.erase Symbol.epsilon, false)
    | .epsilon =>
      if passes then scan g passes first xs else return (.singleton x, false)
    | .terminal | .endMarker => return (.singleton x, false)

/-- Sweeps at most `fuel` times, up to and including the first sweep that
    changes nothing. -/
def saturate {α : Type} [DecidableEq α] (sweep : α → Except Fault α) :
    Nat → α → Except Fault (α × Nat)
  | 0, a => return (a, 0)
  | fuel + 1, a => do
    let b ← sweep a
    if b = a then return (a, 1)
    else
      let (c, sweeps) ← saturate sweep fuel b
      return (c, sweeps + 1)

/-! ### FIRST -/

/-- Every symbol that is no non-terminal is put into its own set. -/
def firstSeed (g : Grammar) : Except Fault SymbolSets :=
  g.symbols.zipIdx.foldlM
    (fun sets (entry, x) =>
      if entry.kind = .nonTerminal then return sets else update sets x (.insert x))
    (List.replicate g.size ∅)

/-- What a rule adds to the set of its left side. -/
def firstOfRule (g : Grammar) (first : SymbolSets) (r : Rule) : Except Fault SymbolSet :=
  if r.right.isEmpty then return .singleton Symbol.epsilon
  else do
    let (begins, vanishes) ← scan g false first r.right
    return if vanishes then begins.insert Symbol.epsilon else begins

/-- One sweep over the rules. -/
def firstSweep (g : Grammar) (first : SymbolSets) : Except Fault SymbolSets :=
  g.rules.foldlM
    (fun sets r => do
      let added ← firstOfRule g sets r
      update sets r.left (· ∪ added))
    first

/-- FIRST of every symbol, and the number of sweeps. -/
def first (g : Grammar) : Except Fault (SymbolSets × Nat) := do
  let seed ← firstSeed g
  saturate (firstSweep g) g.sweepBound seed

/-! ### FOLLOW -/

/-- `$` is put into the set of the start symbol. -/
def followSeed (g : Grammar) : Except Fault SymbolSets :=
  let empty := List.replicate g.size ∅
  match g.start? with
  | some start => update empty start (.insert Symbol.endMark)
  | none => return empty

/-- What the occurrence of a symbol at a place of a rule adds to its set; only
    the set of a non-terminal gets something. -/
def followAt (g : Grammar) (first : SymbolSets) (r : Rule) (follow : SymbolSets) (x : Symbol)
    (i : Nat) : Except Fault SymbolSets := do
  if (← kindOf g x) = .nonTerminal then
    let rest ← readFrom r.shown (i + 1)
    let (begins, vanishes) ← scan g true first rest
    if vanishes then
      let after ← read follow r.left
      update follow x (· ∪ (begins ∪ after))
    else update follow x (· ∪ begins)
  else return follow

/-- One sweep over the rules, each from left to right. -/
def followSweep (g : Grammar) (first follow : SymbolSets) : Except Fault SymbolSets :=
  g.rules.foldlM
    (fun sets r => r.shown.zipIdx.foldlM (fun sets (x, i) => followAt g first r sets x i) sets)
    follow

/-- FOLLOW of every symbol, and the number of sweeps. -/
def follow (g : Grammar) (first : SymbolSets) : Except Fault (SymbolSets × Nat) := do
  let seed ← followSeed g
  saturate (followSweep g first) g.sweepBound seed

end Predictive.Checked
