import Predictive.Grid
import Predictive.Follow

/-! # The LL(1) table

    Each rule is predicted by its lookaheads: the terminals that can begin its
    right side and, if the right side can vanish, what follows the left side.
    The table lists, for each non-terminal and each lookahead, the rules
    predicted there. A cell with more than one entry is a conflict; a grammar
    without conflicts is LL(1).
-/

namespace Predictive

/-- A rule with the symbols that predict it. A symbol stands twice if it both
    begins the right side and follows the left side of a vanishing rule. -/
structure Prediction where
  rule : Nat
  left : Symbol
  lookaheads : List Symbol
  deriving DecidableEq, Repr

/-- Rule numbers for each non-terminal and lookahead, in the order of the
    rules. -/
abbrev Table := Grid (List Nat)

/-- A cell with more than one entry. -/
structure Conflict where
  nonTerminal : Symbol
  lookahead : Symbol
  rules : List Nat
  deriving DecidableEq, Repr

namespace Grammar

/-- The symbols that predict a rule. -/
def lookaheadsOf (first follow : SymbolSets) (r : Rule) : List Symbol :=
  let (begins, vanishes) := first.ofSequence r.right
  begins.toList ++ if vanishes then (follow.get r.left).toList else []

/-- The predictions of all rules in order. -/
def predictions (g : Grammar) (first follow : SymbolSets) : List Prediction :=
  g.rules.zipIdx.map fun (r, i) => ⟨i, r.left, lookaheadsOf first follow r⟩

/-- The LL(1) table. -/
def table (g : Grammar) (first follow : SymbolSets) : Table :=
  let ps := g.predictions first follow
  .tabulate g.nonTerminals g.lookaheads fun nonTerminal lookahead =>
    (ps.filter (·.left == nonTerminal)).flatMap fun p =>
      List.replicate (p.lookaheads.count lookahead) p.rule

end Grammar

namespace Table

/-- The rules predicted for a non-terminal and a symbol; none where the table
    has no such row or column. -/
def rulesAt (t : Table) (nonTerminal lookahead : Symbol) : List Nat :=
  (t.get? nonTerminal lookahead).getD []

/-- The conflicts, row by row. -/
def conflicts (t : Table) : List Conflict :=
  (t.entries.filter fun (_, _, rules) => rules.length > 1).map
    fun (nonTerminal, lookahead, rules) => ⟨nonTerminal, lookahead, rules⟩

/-- No cell has more than one entry. -/
def isLL1 (t : Table) : Bool := t.cells.all fun row => row.all fun rules => rules.length ≤ 1

end Table

end Predictive
