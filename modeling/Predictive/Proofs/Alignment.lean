import Mathlib.Algebra.GroupWithZero.Nat
import Mathlib.Data.List.Forall2
import Predictive.Proofs.Checked.Report

/-! # Where a cell of a table stands

    A table whose rows have as many cells as its header is shown in lines of one
    length. In all lines a column has the same range of characters
    (`Text.Columns.start`), and its cell stands at the right end of this range
    (`Shows`).

    Any other table ends with a fault. Columns are measured before lines are
    made, so the fault is at the narrowest row, whether that row ends before a
    column or a longer row goes on behind the last one (`unevenFault?_eq_index`).

    Main result: `TableText.aligned_or_index_narrowest`.
-/

namespace Predictive

namespace Text.Columns

/-! ### Separated lists -/

section Separated

variable {α : Type} {sep : List α} {xs : List (List α)} {j : Nat}

theorem length_intercalate (sep : List α) (xs : List (List α)) : (sep.intercalate xs).length =
    (xs.map List.length).sum + sep.length * (xs.length - 1) := by
  induction xs with
  | nil => rfl
  | cons x xs ih =>
    cases xs with
    | nil => simp
    | cons y ys =>
      rw [List.intercalate_cons_cons, List.length_append, List.length_append, ih]
      simp only [List.map_cons, List.sum_cons, List.length_cons, Nat.add_sub_cancel,
        Nat.mul_add, Nat.mul_one]
      omega

/-- Behind an item and a separator the other items are separated. -/
theorem drop_intercalate (hj : j < xs.length) :
    (sep.intercalate xs).drop (((xs.take j).map List.length).sum + sep.length * j) =
      sep.intercalate (xs.drop j) := by
  induction j generalizing xs with
  | zero => simp
  | succ j ih =>
    match xs, hj with
    | x :: y :: zs, hj =>
      have hrest : j < (y :: zs).length := Nat.lt_of_succ_lt_succ hj
      have hplace : (((x :: y :: zs).take (j + 1)).map List.length).sum + sep.length * (j + 1) =
          (x ++ sep).length + ((((y :: zs).take j).map List.length).sum + sep.length * j) := by
        simp only [List.take_succ_cons, List.map_cons, List.sum_cons, List.length_append,
          Nat.mul_add, Nat.mul_one]
        omega
      rw [hplace, List.intercalate_cons_cons, List.drop_length_add_append]
      exact ih hrest

theorem take_intercalate_cons (sep x : List α) (xs : List (List α)) :
    (sep.intercalate (x :: xs)).take x.length = x := by
  cases xs with
  | nil => simp
  | cons y ys => simp [List.intercalate_cons_cons]

end Separated

/-! ### Rows in columns -/

variable {rows : List (List String)} {row : List String} {widths : List Nat}
variable {cell : String} {j k n w : Nat}

/-- The number of characters before column `j`: the columns to its left, each
    with a separator of three characters. -/
def start (widths : List Nat) (j : Nat) : Nat := (widths.take j).sum + 3 * j

/-- The row has a cell for each column, and none is wider than its column. -/
structure Fits (widths : List Nat) (row : List String) : Prop where
  length_eq : row.length = widths.length
  cell_le : ∀ {j : Nat} {cell : String} {w : Nat}, row[j]? = some cell →
    widths[j]? = some w → cell.length ≤ w

/-- The line shows each cell of the row at the right end of its column. -/
structure Shows (widths : List Nat) (row : List String) (line : String) : Prop
    extends Fits widths row where
  line_length : line.length = widths.sum + 3 * (widths.length - 1)
  /-- The characters of the column are blanks and then the cell. -/
  column : ∀ {j : Nat} {cell : String} {w : Nat}, row[j]? = some cell → widths[j]? = some w →
    (line.toList.drop (start widths j)).take w =
      List.replicate (w - cell.length) ' ' ++ cell.toList

/-- Each line shows its row, and no column is wider than its widest cell. -/
structure Aligned (rows : List (List String)) (widths : List Nat) (lines : List String) :
    Prop where
  shown : List.Forall₂ (Shows widths) rows lines
  filled : ∀ {j w : Nat}, widths[j]? = some w →
    ∃ row ∈ rows, ∃ cell, row[j]? = some cell ∧ cell.length = w

/-- The cells of a row as they stand in its line. -/
def padded (widths : List Nat) (row : List String) : List String :=
  row.zipIdx.map fun cj => padLeft (widths.getD cj.2 0) cj.1

theorem toList_line (widths : List Nat) (row : List String) : (line widths row).toList =
    " | ".toList.intercalate ((padded widths row).map String.toList) :=
  String.toList_intercalate

theorem getElem?_padded (hcell : row[j]? = some cell) (hw : widths[j]? = some w) :
    (padded widths row)[j]? = some (padLeft w cell) := by
  unfold padded
  rw [List.getElem?_map, List.getElem?_zipIdx, hcell]
  simp [hw]

/-- A cell that is not too wide fills its column once it is padded. -/
theorem length_toList_padLeft (h : cell.length ≤ w) : (padLeft w cell).toList.length = w := by
  rw [String.length_toList, length_padLeft, Nat.max_eq_left h]

theorem Fits.map_length_padded (h : Fits widths row) :
    ((padded widths row).map String.toList).map List.length = widths := by
  have hlength : (((padded widths row).map String.toList).map List.length).length =
      widths.length := by
    simp [padded, h.length_eq]
  apply List.ext_getElem?
  intro j
  by_cases hj : j < widths.length
  · have hw := List.getElem?_eq_getElem hj
    have hcell := List.getElem?_eq_getElem (l := row) (h.length_eq ▸ hj)
    have hle := h.cell_le hcell hw
    rw [List.getElem?_map, List.getElem?_map, getElem?_padded hcell hw, hw]
    exact congrArg some (length_toList_padLeft hle)
  · rw [List.getElem?_eq_none (by omega), List.getElem?_eq_none (by omega)]

/-- What is written for a row that fits shows it. -/
theorem Fits.shows_line (h : Fits widths row) : Shows widths row (line widths row) := by
  have hcolumns := h.map_length_padded
  have hcount := congrArg List.length hcolumns
  rw [List.length_map] at hcount
  constructor
  · exact h
  · rw [← String.length_toList, toList_line, length_intercalate, hcolumns, hcount]
    rfl
  · intro j cell w hcell hw
    have hj : j < widths.length := (List.getElem?_eq_some_iff.1 hw).1
    have hplace : start widths j =
        ((((padded widths row).map String.toList).take j).map List.length).sum +
          " | ".toList.length * j := by
      rw [List.map_take, hcolumns]
      rfl
    have hpad : ((padded widths row).map String.toList)[j]? = some (padLeft w cell).toList := by
      rw [List.getElem?_map, getElem?_padded hcell hw]
      rfl
    obtain ⟨hlt, hhere⟩ := List.getElem?_eq_some_iff.1 hpad
    -- the column ends where the padded cell does
    have htake := take_intercalate_cons " | ".toList (padLeft w cell).toList
      (((padded widths row).map String.toList).drop (j + 1))
    rw [length_toList_padLeft (h.cell_le hcell hw)] at htake
    rw [toList_line, hplace, drop_intercalate hlt, List.drop_eq_getElem_cons hlt, hhere, htake]
    simp [padLeft]

/-! ### Widths -/

/-- The width of a column is the largest of its lengths. -/
theorem max?_eq_width (hrows : rows ≠ []) (j : Nat) :
    (rows.map fun row => (row[j]?.map String.length).getD 0).max? = some (width rows j) := by
  obtain ⟨first, rest, rfl⟩ := List.exists_cons_of_ne_nil hrows
  unfold width
  rw [List.map_cons, List.max?_cons', List.foldl_cons, Nat.zero_max]

theorem le_width (hrow : row ∈ rows) (hcell : row[j]? = some cell) :
    cell.length ≤ width rows j := by
  have hlargest := (List.max?_eq_some_iff.1 (max?_eq_width (List.ne_nil_of_mem hrow) j)).2
  have hle := hlargest _ (List.mem_map_of_mem hrow)
  rwa [hcell] at hle

/-- Some cell is as wide as its column. -/
theorem exists_length_eq_width (hrows : rows ≠ []) (h : ∀ row ∈ rows, j < row.length) :
    ∃ row ∈ rows, ∃ cell, row[j]? = some cell ∧ cell.length = width rows j := by
  have hmem := (List.max?_eq_some_iff.1 (max?_eq_width hrows j)).1
  obtain ⟨row, hrow, hlength⟩ := List.mem_map.1 hmem
  have hcell := List.getElem?_eq_getElem (h row hrow)
  rw [hcell] at hlength
  exact ⟨row, hrow, _, hcell, hlength⟩

/-- Rows of one length are aligned. -/
theorem aligned_of_length_eq (hrows : rows ≠ []) (h : ∀ row ∈ rows, row.length = n) :
    let widths := (List.range n).map (width rows)
    Aligned rows widths (rows.map (line widths)) := by
  intro widths
  have hwidth : ∀ {j w : Nat}, widths[j]? = some w → j < n ∧ width rows j = w := by
    intro j w hw
    obtain ⟨i, hi, rfl⟩ := Option.map_eq_some_iff.1 (List.getElem?_map ▸ hw)
    obtain ⟨hj, rfl⟩ := List.getElem?_eq_some_iff.1 hi
    rw [List.length_range] at hj
    exact ⟨hj, by rw [List.getElem_range]⟩
  constructor
  · rw [List.forall₂_map_right_iff, List.forall₂_same]
    intro row hrow
    apply Fits.shows_line
    constructor
    · simp [widths, h row hrow]
    · intro j cell w hcell hw
      rw [← (hwidth hw).2]
      exact le_width hrow hcell
  · intro j w hw
    obtain ⟨hj, rfl⟩ := hwidth hw
    exact exists_length_eq_width hrows fun row hrow => by rwa [h row hrow]

/-! ### The fault of uneven rows -/

/-- If all that is found is the same, it is found first. -/
theorem findSome?_eq_of_forall {α β : Type} {xs : List α} {f : α → Option β} {b : β}
    (h : ∀ x ∈ xs, f x = none ∨ f x = some b) (hsome : ∃ x ∈ xs, f x = some b) :
    xs.findSome? f = some b := by
  cases hfound : xs.findSome? f with
  | none =>
    obtain ⟨x, hx, hb⟩ := hsome
    rw [List.findSome?_eq_none_iff.1 hfound x hx] at hb
    cases hb
  | some c =>
    obtain ⟨x, hx, hc⟩ := List.exists_of_findSome?_eq_some hfound
    rcases h x hx with hnone | hb
    · rw [hnone] at hc
      cases hc
    · rw [← hb, hc]

/-- The first number with a result is the one that is found. -/
theorem findSome?_range {β : Type} {f : Nat → Option β} {b : β} (hk : k < n)
    (hbefore : ∀ j < k, f j = none) (h : f k = some b) :
    (List.range n).findSome? f = some b := by
  have hsplit : List.range n = List.range k ++ k :: (List.range (n - k - 1)).map (k + 1 + ·) := by
    have hn : n = k + 1 + (n - k - 1) := by omega
    conv_lhs => rw [hn, List.range_add, List.range_succ, List.append_assoc]
    rfl
  rw [List.findSome?_eq_some_iff]
  exact ⟨_, _, _, hsplit, h, fun j hj => hbefore j (List.mem_range.1 hj)⟩

/-- A row that is too long for `n` columns has its first fault at the `n`-th. -/
theorem findSome?_ofIndex? (n m : Nat) : (List.range m).findSome? (Fault.ofIndex? n) =
    if m ≤ n then none else some (.index n n) := by
  split
  · refine List.findSome?_eq_none_iff.2 fun j hj => Fault.ofIndex?_eq_none.2 ?_
    have := List.mem_range.1 hj
    omega
  · apply findSome?_range (k := n) (by omega)
    · exact fun j hj => Fault.ofIndex?_eq_none.2 hj
    · simp [Fault.ofIndex?]

/-- Rows of different lengths cannot be aligned: the narrowest of them, or the
    columns if they are as many, are what a number does not fit. -/
theorem unevenFault?_eq_index (hmin : (rows.map List.length).min? = some k) (hk : k ≤ n)
    (h : ∃ row ∈ rows, row.length ≠ n) : unevenFault? n rows = some (.index k k) := by
  obtain ⟨hmem, hall⟩ := List.min?_eq_some_iff.1 hmin
  obtain ⟨narrow, hnarrow, hlength⟩ := List.mem_map.1 hmem
  have hle : ∀ row ∈ rows, k ≤ row.length := fun row hrow => hall _ (List.mem_map_of_mem hrow)
  have hbefore : ∀ j < k, (rows.findSome? fun row => Fault.ofIndex? row.length j) = none := by
    intro j hj
    refine List.findSome?_eq_none_iff.2 fun row hrow => Fault.ofIndex?_eq_none.2 ?_
    have := hle row hrow
    omega
  unfold unevenFault?
  by_cases hlt : k < n
  · -- a column without a cell in the narrowest rows, and the first such column
    have hhere : (rows.findSome? fun row => Fault.ofIndex? row.length k) = some (.index k k) := by
      apply findSome?_eq_of_forall
      · intro row hrow
        rcases Nat.lt_or_eq_of_le (hle row hrow) with hlonger | hsame
        · exact .inl (Fault.ofIndex?_eq_none.2 hlonger)
        · exact .inr (by simp [Fault.ofIndex?, ← hsame])
      · exact ⟨narrow, hnarrow, by simp [Fault.ofIndex?, hlength]⟩
    rw [findSome?_range hlt hbefore hhere]
    rfl
  · -- every row has a cell for each column, so some row has one more
    obtain rfl : k = n := by omega
    have hshort : ((List.range k).findSome? fun j =>
        rows.findSome? fun row => Fault.ofIndex? row.length j) = none :=
      List.findSome?_eq_none_iff.2 fun j hj => hbefore j (List.mem_range.1 hj)
    rw [hshort]
    show (rows.findSome? fun row => (List.range row.length).findSome? (Fault.ofIndex? k)) = _
    obtain ⟨long, hlong, hne⟩ := h
    simp only [findSome?_ofIndex?]
    apply findSome?_eq_of_forall
    · intro row _
      split
      · exact .inl rfl
      · exact .inr rfl
    · have hge := hle long hlong
      exact ⟨long, hlong, if_neg (by omega)⟩

end Text.Columns

/-! ### Tables -/

namespace TableText

open Text.Columns (Aligned aligned_of_length_eq unevenFault?_eq_index width_le)

variable {t : TableText}

/-- The number of cells in the narrowest row, names included; the header is a
    row as well. -/
def narrowest (t : TableText) : Nat :=
  (t.rows.map fun row => row.2.length + 1).foldl min t.columns

theorem lengths_cells (t : TableText) : t.cells.map List.length =
    t.columns :: t.rows.map fun row => row.2.length + 1 := by
  unfold cells
  rw [List.map_cons, List.map_map]
  rfl

theorem min?_lengths_cells (t : TableText) :
    (t.cells.map List.length).min? = some t.narrowest := by
  rw [lengths_cells, List.min?_cons']
  rfl

theorem narrowest_le_columns (t : TableText) : t.narrowest ≤ t.columns := by
  have hall := (List.min?_eq_some_iff.1 t.min?_lengths_cells).2
  rw [lengths_cells] at hall
  exact hall _ List.mem_cons_self

theorem rectangular_iff : t.Rectangular ↔ ∀ row ∈ t.cells, row.length = t.columns := by
  unfold cells columns Rectangular
  rw [List.forall_mem_cons, List.forall_mem_map]
  simp

/-- A table whose rows have as many cells as its header is shown in lines, one
    for the header and one for each row. All lines are of one length, each column
    stands in the same place in all of them, holds its cells behind blanks, and
    has a cell that leaves no room for a blank. Any other table ends with a
    fault, where the length and the number are those of the narrowest row.

    Cells are counted in characters, and none is wider than a column can be. -/
theorem aligned_or_index_narrowest (t : TableText)
    (hcells : ∀ row ∈ t.cells, ∀ cell ∈ row, cell.length ≤ Checked.widest) :
    (t.Rectangular → ∃ (widths : List Nat) (lines : List String),
      widths.length = t.columns ∧ Aligned t.cells widths lines ∧
        Checked.tablePlain t = .ok ("\n".intercalate lines)) ∧
    (¬t.Rectangular → Checked.tablePlain t = .error (.index t.narrowest t.narrowest)) ∧
    Checked.tablePlain t = t.render := by
  have hrender := Checked.tablePlain_eq t fun j _ => width_le hcells j
  refine ⟨?_, ?_, hrender⟩
  · intro hrectangular
    have haligned := aligned_of_length_eq (List.cons_ne_nil _ _) (rectangular_iff.1 hrectangular)
    refine ⟨_, _, ?_, haligned, ?_⟩
    · rw [List.length_map, List.length_range]
    · rw [hrender]
      exact Checked.guarded_eq_ok hrectangular.fault?_eq_none _
  · intro hragged
    have huneven : ∃ row ∈ t.cells, row.length ≠ t.columns := by
      simpa [rectangular_iff] using hragged
    have hfault : t.fault? = some (.index t.narrowest t.narrowest) :=
      unevenFault?_eq_index t.min?_lengths_cells t.narrowest_le_columns huneven
    rw [hrender]
    exact guarded_eq_error_iff.2 hfault

/-- In a table for `a` and `$` the cell `S→é` is as wide as its column, and `-` is
    behind two blanks. With one row too long and another too short, the short row
    is what the third of three columns does not fit. -/
theorem aligned_or_index_narrowest_of_rows :
    let square : TableText := ⟨["a", "$"], [("S", ["S→é", "-"]), ("A", ["-", "A→ε"])]⟩
    let ragged : TableText := ⟨["a", "$"], [("S", ["-", "-", "-"]), ("A", ["-"])]⟩
    (∃ (widths : List Nat) (lines : List String), widths.length = 3 ∧
      Aligned square.cells widths lines ∧
        Checked.tablePlain square = .ok ("\n".intercalate lines)) ∧
    Checked.tablePlain square = .ok "  |   a |   $\nS | S→é |   -\nA |   - | A→ε" ∧
    Checked.tablePlain ragged = .error (.index 2 2) := by
  intro square ragged
  have hsquare : ∀ row ∈ square.cells, ∀ cell ∈ row, cell.length ≤ Checked.widest := by decide
  have hragged : ∀ row ∈ ragged.cells, ∀ cell ∈ row, cell.length ≤ Checked.widest := by decide
  have hrectangular : square.Rectangular := by
    unfold Rectangular
    decide
  have huneven : ¬ragged.Rectangular := by
    unfold Rectangular
    decide
  have hshown : square.render = .ok "  |   a |   $\nS | S→é |   -\nA |   - | A→ε" := by decide
  obtain ⟨haligned, -, hrender⟩ := aligned_or_index_narrowest square hsquare
  obtain ⟨-, hfault, -⟩ := aligned_or_index_narrowest ragged hragged
  exact ⟨haligned hrectangular, hrender.trans hshown, hfault huneven⟩

end TableText

end Predictive
