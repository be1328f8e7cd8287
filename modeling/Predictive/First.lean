import Predictive.SymbolSet
import Predictive.Saturation
import Predictive.Grammar.Basic

/-! # FIRST

    FIRST of a symbol holds the terminals that can begin what the symbol
    becomes, and `ε` if the symbol can vanish. The sets are found by sweeping
    over the rules in order (`Grammar.firstSweep`), each rule using what the
    rules before it have added.
-/

namespace Predictive

namespace SymbolSets

/-- The symbol can vanish. -/
def vanishing (first : SymbolSets) (x : Symbol) : Bool := Symbol.epsilon ∈ first.get x

/-- What can begin a sequence of symbols, without `ε`, and whether the whole
    sequence can vanish. The sequence is read up to the first symbol that
    cannot vanish. -/
def ofSequence (first : SymbolSets) : List Symbol → SymbolSet × Bool
  | [] => (∅, true)
  | x :: xs =>
    if first.vanishing x then
      let (rest, vanishes) := first.ofSequence xs
      ((first.get x).erase Symbol.epsilon ∪ rest, vanishes)
    else (first.get x, false)

/-- The fault of reading a sequence with a number that is no symbol: the
    sequence is read only up to the first symbol that cannot vanish. -/
def sequenceFault? (first : SymbolSets) (xs : List Symbol) : Option Fault :=
  (xs.find? fun x => !first.vanishing x).bind (Fault.ofIndex? first.length)

end SymbolSets

namespace Grammar

/-- FIRST before the first sweep: a symbol that is no non-terminal begins
    with itself. -/
def firstSeed (g : Grammar) : SymbolSets :=
  (List.range g.size).map fun x => if g.kind x = .nonTerminal then ∅ else .singleton x

/-- What a right side adds to FIRST of its left side. -/
def firstOfRight (first : SymbolSets) (right : List Symbol) : SymbolSet :=
  let (begins, vanishes) := first.ofSequence right
  if vanishes then begins.insert Symbol.epsilon else begins

/-- One sweep over the rules. -/
def firstSweep (g : Grammar) (first : SymbolSets) : SymbolSets :=
  g.rules.foldl (fun sets r => sets.add r.left (firstOfRight sets r.right)) first

/-- A number of sweeps that is always enough: each sweep but the last adds a
    member to one of `size` sets of at most `size` members. -/
def sweepBound (g : Grammar) : Nat := g.size * g.size + 1

/-- FIRST of every symbol, and the number of sweeps. -/
def first (g : Grammar) : SymbolSets × Nat :=
  saturate g.firstSweep g.sweepBound g.firstSeed

end Grammar

end Predictive
