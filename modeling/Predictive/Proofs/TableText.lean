import Predictive.Report.TableText

/-! # When a table can be aligned

    Rows are aligned without a fault if all of them have a cell for each column.
    The tables of a grammar are shown as rectangles: a grid that tabulates a
    function has as many cells in each row as it has columns.
-/

namespace Predictive

namespace Text.Columns

variable {rows : List (List String)} {n : Nat}

theorem unevenFault?_eq_none (h : ∀ row ∈ rows, row.length = n) : unevenFault? n rows = none := by
  have hshort : ((List.range n).findSome? fun j =>
      rows.findSome? fun row => Fault.ofIndex? row.length j) = none := by
    refine List.findSome?_eq_none_iff.2 fun j hj => List.findSome?_eq_none_iff.2 fun row hrow => ?_
    rw [h row hrow]
    exact Fault.ofIndex?_eq_none.2 (List.mem_range.1 hj)
  have hlong : (rows.findSome? fun row =>
      (List.range row.length).findSome? (Fault.ofIndex? n)) = none := by
    refine List.findSome?_eq_none_iff.2 fun row hrow => List.findSome?_eq_none_iff.2 fun j hj => ?_
    rw [h row hrow] at hj
    exact Fault.ofIndex?_eq_none.2 (List.mem_range.1 hj)
  unfold unevenFault?
  rw [hshort, hlong]
  rfl

/-- A column is no wider than the cells are long. -/
theorem width_le (h : ∀ row ∈ rows, ∀ cell ∈ row, cell.length ≤ n) (j : Nat) :
    width rows j ≤ n := by
  refine @List.foldlRecOn _ _ (· ≤ n) _ max 0 (Nat.zero_le n) ?_
  intro widest hwidest length hlength
  obtain ⟨row, hrow, rfl⟩ := List.mem_map.1 hlength
  refine Nat.max_le.2 ⟨hwidest, ?_⟩
  cases hcell : row[j]? with
  | none => exact Nat.zero_le n
  | some cell => exact h row hrow cell (List.mem_of_getElem? hcell)

end Text.Columns

namespace TableText

variable {α : Type} {rows columns : List Symbol} {f : Symbol → Symbol → α} {t : TableText}

/-- Every row has as many cells as the header. -/
def Rectangular (t : TableText) : Prop := ∀ row ∈ t.rows, row.2.length = t.header.length

theorem Rectangular.fault?_eq_none (h : t.Rectangular) : t.fault? = none := by
  show Text.Columns.unevenFault? t.columns t.cells = none
  apply Text.Columns.unevenFault?_eq_none
  intro row hrow
  rcases List.mem_cons.1 hrow with rfl | hrow
  · rfl
  · obtain ⟨named, hnamed, rfl⟩ := List.mem_map.1 hrow
    exact congrArg (· + 1) (h named hnamed)

/-- A function that is tabulated is shown in names, row by row. -/
theorem ofGrid_tabulate (g : Grammar) (cellText : α → String) :
    ofGrid g cellText (Grid.tabulate rows columns f) =
      { header := g.names columns
        rows := rows.map fun x => (g.name x, columns.map fun u => cellText (f x u)) } := by
  have hrows : (rows.zip (rows.map fun x => columns.map (f x))).map
        (fun xc => (g.name xc.1, xc.2.map cellText)) =
      rows.map fun x => (g.name x, columns.map fun u => cellText (f x u)) := by
    rw [Grid.zip_map_self, List.map_map]
    refine List.map_congr_left fun x _ => ?_
    show (_, (columns.map (f x)).map cellText) = _
    rw [List.map_map]
    rfl
  unfold ofGrid
  rw [← hrows]
  rfl

theorem rectangular_ofGrid (g : Grammar) (cellText : α → String) :
    (ofGrid g cellText (Grid.tabulate rows columns f)).Rectangular := by
  rw [ofGrid_tabulate]
  intro row hrow
  obtain ⟨x, -, rfl⟩ := List.mem_map.1 hrow
  show (columns.map _).length = (columns.map _).length
  rw [List.length_map, List.length_map]

end TableText

end Predictive
