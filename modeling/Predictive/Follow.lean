import Predictive.First

/-! # FOLLOW

    FOLLOW of a non-terminal holds the terminals that can come right after it,
    and `$` if it can stand at the end. `$` follows the start symbol; then
    each occurrence of a non-terminal in a right side is followed by what can
    begin the rest of that side and, where the rest can vanish, by what
    follows the left side.
-/

namespace Predictive

/-- A non-terminal inside a right side: the left side of the rule, the
    non-terminal, and the rest of the right side after it. -/
structure Occurrence where
  left : Symbol
  symbol : Symbol
  rest : List Symbol
  deriving DecidableEq, Repr

namespace Grammar

/-- The occurrences of non-terminals in a right side, from left to right. -/
def occurrencesIn (g : Grammar) (left : Symbol) : List Symbol → List Occurrence
  | [] => []
  | x :: rest =>
    if g.kind x = .nonTerminal then ⟨left, x, rest⟩ :: g.occurrencesIn left rest
    else g.occurrencesIn left rest

/-- The occurrences of non-terminals in all right sides. -/
def occurrences (g : Grammar) : List Occurrence :=
  g.rules.flatMap fun r => g.occurrencesIn r.left r.right

/-- FOLLOW before the first sweep: `$` follows the start symbol. -/
def followSeed (g : Grammar) : SymbolSets :=
  (List.range g.size).map fun x => if g.start? = some x then .singleton Symbol.endMark else ∅

/-- What an occurrence adds to FOLLOW of its symbol. -/
def followAt (first follow : SymbolSets) (o : Occurrence) : SymbolSet :=
  let (begins, vanishes) := first.ofSequence o.rest
  if vanishes then begins ∪ follow.get o.left else begins

/-- One sweep over the occurrences. -/
def followSweep (g : Grammar) (first follow : SymbolSets) : SymbolSets :=
  g.occurrences.foldl (fun sets o => sets.add o.symbol (followAt first sets o)) follow

/-- FOLLOW of every symbol, and the number of sweeps; only non-terminals have
    members. -/
def follow (g : Grammar) (first : SymbolSets) : SymbolSets × Nat :=
  saturate (g.followSweep first) g.sweepBound g.followSeed

end Grammar

end Predictive
