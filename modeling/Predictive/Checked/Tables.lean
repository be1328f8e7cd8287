import Predictive.Checked.Sets
import Predictive.Recovery
import Predictive.Table

/-! # The tables with every look-up

    The LL(1) table is filled rule by rule: an empty cell for each non-terminal
    and each lookahead, and then each rule is entered in its row under all that
    predicts it. Rows and columns are found by position.
-/

namespace Predictive.Checked

variable {α : Type}

/-! ### Filling -/

/-- Enters a rule in a row under a symbol; a symbol without a column is passed
    over. -/
def enter (columns : List Symbol) (rule : Nat) (row : List (List Nat)) (t : Symbol) :
    Except Fault (List (List Nat)) :=
  match columns.idxOf? t with
  | some j => update row j (· ++ [rule])
  | none => return row

/-- Enters a rule under what can begin its right side and, if that vanishes,
    under what follows its left side. -/
def fill (g : Grammar) (first follow : SymbolSets) (cells : List (List (List Nat))) (r : Rule)
    (rule : Nat) : Except Fault (List (List (List Nat))) :=
  match g.nonTerminals.idxOf? r.left with
  | some i => do
    let row ← read cells i
    let (begins, vanishes) ← scan g true first r.shown
    let after ← read follow r.left
    let lookaheads := begins.toList ++ if vanishes then after.toList else []
    let row ← lookaheads.foldlM (enter g.lookaheads rule) row
    return cells.set i row
  | none => return cells

/-- The LL(1) table. -/
def table (g : Grammar) (first follow : SymbolSets) : Except Fault Table := do
  let blank := List.replicate g.nonTerminals.length (List.replicate g.lookaheads.length [])
  let cells ← g.rules.zipIdx.foldlM (fun cells (r, i) => fill g first follow cells r i) blank
  return { rows := g.nonTerminals, columns := g.lookaheads, cells := cells }

/-- The advice table. -/
def recovery (g : Grammar) (first follow : SymbolSets) : Except Fault Recovery := do
  let cells ← g.nonTerminals.mapM fun x => do
    let begins ← read first x
    let after ← read follow x
    return g.lookaheads.map fun t =>
      if t ∈ after then Advice.extract else if t ∉ begins then .explore else .proceed
  return { rows := g.nonTerminals, columns := g.lookaheads, cells := cells }

/-! ### Look-ups -/

/-- The cell where a row and a column meet. -/
def cell (t : Grid α) (x u : Symbol) : Except Fault (Option α) :=
  match t.rows.idxOf? x, t.columns.idxOf? u with
  | some i, some j => do
    let row ← read t.cells i
    let content ← read row j
    return some content
  | _, _ => return none

/-- The rules in a cell. -/
def rulesAt (t : Table) (x u : Symbol) : Except Fault (List Nat) := do
  let rules ← cell t x u
  return rules.getD []

/-- The cells of a row. -/
def rowOf (t : Grid α) (x : Symbol) : Except Fault (Option (List α)) :=
  match t.rows.idxOf? x with
  | some i => do
    let row ← read t.cells i
    return some row
  | none => return none

/-- The conflicts in the `i`-th row, that of `x`. -/
def conflictsIn (t : Table) (x : Symbol) (i : Nat) : Except Fault (List Conflict) := do
  let found ← t.columns.zipIdx.mapM fun (u, j) => do
    let row ← read t.cells i
    let rules ← read row j
    return if rules.length > 1 then [⟨x, u, rules⟩] else []
  return found.flatten

/-- The conflicts, row by row. -/
def conflicts (t : Table) : Except Fault (List Conflict) := do
  let found ← t.rows.zipIdx.mapM fun (x, i) => conflictsIn t x i
  return found.flatten

end Predictive.Checked
