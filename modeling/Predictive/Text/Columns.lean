import Predictive.Fault

/-! # Right-aligned columns

    A table of texts is written with one line per row. Each column is as wide
    as its widest cell, counted in characters; cells are padded on the left
    and separated by a bar.
-/

namespace Predictive.Text.Columns

/-- The width of the widest cell in column `j`; a row that ends before it
    counts as empty there. -/
def width (rows : List (List String)) (j : Nat) : Nat :=
  (rows.map fun row => (row[j]?.map String.length).getD 0).foldl max 0

/-- The text with blanks before it, `n` characters wide; a longer text is
    left as it is. -/
def padLeft (n : Nat) (s : String) : String :=
  String.ofList (List.replicate (n - s.length) ' ') ++ s

/-- One line: each cell as wide as the column it stands in. -/
def line (widths : List Nat) (row : List String) : String :=
  " | ".intercalate (row.zipIdx.map fun (cell, j) => padLeft (widths.getD j 0) cell)

/-- All rows, one line each, in `columns` columns. -/
def align (columns : Nat) (rows : List (List String)) : String :=
  let widths := (List.range columns).map (width rows)
  "\n".intercalate (rows.map (line widths))

/-- Why rows cannot be aligned in `columns` columns. Widths are taken column by
    column and need a cell in every row: one row ends too early for a column. Then
    each row needs a width for all its cells: one has a cell beyond the last
    column. -/
def unevenFault? (columns : Nat) (rows : List (List String)) : Option Fault :=
  ((List.range columns).findSome? fun j =>
      rows.findSome? fun row => Fault.ofIndex? row.length j) <|>
    rows.findSome? fun row => (List.range row.length).findSome? (Fault.ofIndex? columns)

theorem length_padLeft (n : Nat) (s : String) : (padLeft n s).length = max n s.length := by
  simp [padLeft, ← String.length_toList]
  omega

example : align 2 [["", "a"], ["long", "b c"]] = "     |   a\nlong | b c" := by decide

end Predictive.Text.Columns
