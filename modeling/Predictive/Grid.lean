import Predictive.Symbol

/-! # Grids over symbols

    A grid has a row for some symbols and a column for some symbols, with a
    cell where they meet. Both tables of a grammar are grids with a row for
    each non-terminal and a column for each lookahead.

    Main fact: `get?_tabulate`, a look-up in a tabulated function gives its
    value on the rows and columns and nothing elsewhere.
-/

namespace Predictive

/-- Rows and columns named by symbols; `cells` holds the rows in order. -/
structure Grid (α : Type) where
  rows : List Symbol
  columns : List Symbol
  cells : List (List α)
  deriving DecidableEq, Repr

namespace Grid

variable {α : Type}

/-- The grid of a function. -/
def tabulate (rows columns : List Symbol) (f : Symbol → Symbol → α) : Grid α :=
  { rows := rows
    columns := columns
    cells := rows.map fun row => columns.map (f row) }

/-- The cells of a row. -/
def row? (t : Grid α) (row : Symbol) : Option (List α) :=
  (t.rows.idxOf? row).bind (t.cells[·]?)

/-- The cell where a row and a column meet. -/
def get? (t : Grid α) (row column : Symbol) : Option α := do
  let cells ← t.row? row
  let j ← t.columns.idxOf? column
  cells[j]?

/-- The cells with their row and column, row by row. -/
def entries (t : Grid α) : List (Symbol × Symbol × α) :=
  (t.rows.zip t.cells).flatMap fun (row, cells) =>
    (t.columns.zip cells).map fun (column, cell) => (row, column, cell)

/-- Only the values on the rows and columns count. -/
theorem tabulate_congr {rows columns : List Symbol} {f f' : Symbol → Symbol → α}
    (h : ∀ row ∈ rows, ∀ column ∈ columns, f row column = f' row column) :
    tabulate rows columns f = tabulate rows columns f' := by
  have hcells : rows.map (fun row => columns.map (f row)) =
      rows.map fun row => columns.map (f' row) :=
    List.map_congr_left fun row hrow => List.map_congr_left (h row hrow)
  unfold tabulate
  rw [hcells]

theorem getElem?_of_idxOf? {xs : List Symbol} {x : Symbol} {i : Nat}
    (h : xs.idxOf? x = some i) : xs[i]? = some x := by
  obtain ⟨hlt, heq, -⟩ := List.findIdx?_eq_some_iff_getElem.1 h
  rw [List.getElem?_eq_getElem hlt, beq_iff_eq.1 heq]

theorem map_getElem?_idxOf? {β : Type} (xs : List Symbol) (f : Symbol → β) (x : Symbol) :
    ((xs.idxOf? x).bind ((xs.map f)[·]?)) = if x ∈ xs then some (f x) else none := by
  cases hi : xs.idxOf? x with
  | none =>
    rw [if_neg (List.idxOf?_eq_none_iff.1 hi)]
    rfl
  | some i =>
    have here := getElem?_of_idxOf? hi
    rw [Option.bind_some, List.getElem?_map, here, if_pos (List.mem_of_getElem? here)]
    rfl

theorem row?_tabulate (rows columns : List Symbol) (f : Symbol → Symbol → α) (row : Symbol) :
    (tabulate rows columns f).row? row
      = if row ∈ rows then some (columns.map (f row)) else none :=
  map_getElem?_idxOf? rows (fun row => columns.map (f row)) row

theorem get?_tabulate (rows columns : List Symbol) (f : Symbol → Symbol → α)
    (row column : Symbol) :
    (tabulate rows columns f).get? row column
      = if row ∈ rows ∧ column ∈ columns then some (f row column) else none := by
  simp only [get?, row?_tabulate]
  by_cases hr : row ∈ rows
  · simp only [hr, if_true, true_and]
    exact map_getElem?_idxOf? columns (f row) column
  · simp [hr]

theorem zip_map_self {β : Type} (xs : List Symbol) (f : Symbol → β) :
    xs.zip (xs.map f) = xs.map fun x => (x, f x) := by
  have hself := @List.zip_map' _ _ _ id f xs
  rwa [List.map_id] at hself

theorem entries_tabulate (rows columns : List Symbol) (f : Symbol → Symbol → α) :
    (tabulate rows columns f).entries
      = rows.flatMap fun row => columns.map fun column => (row, column, f row column) := by
  have hrow : ∀ row, (columns.zip (columns.map (f row))).map
        (fun (column, cell) => (row, column, cell))
      = columns.map fun column => (row, column, f row column) := by
    intro row
    rw [zip_map_self, List.map_map]
    rfl
  show (rows.zip (rows.map _)).flatMap _ = _
  rw [zip_map_self, List.flatMap_map]
  exact congrArg rows.flatMap (funext hrow)

end Grid

end Predictive
