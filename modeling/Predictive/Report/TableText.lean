import Predictive.Table
import Predictive.Recovery
import Predictive.Json
import Predictive.Text.Columns

/-! # Tables as text

    Both tables of a grammar are shown in the same form: a header with the
    names of the columns, and for each row its name and the texts of its
    cells. The plain form is aligned in columns, the leading column holding
    the names of the rows.

    A table built by hand may have rows of any length; `fault?` finds the
    first row that does not fit the header.
-/

namespace Predictive

/-- A table as strings. -/
structure TableText where
  header : List String
  rows : List (String × List String)
  deriving DecidableEq, Repr

namespace TableText

/-- The number of columns, that of the names included. -/
def columns (t : TableText) : Nat := t.header.length + 1

/-- All lines as cells: the header with an empty corner, then the rows with
    their names. -/
def cells (t : TableText) : List (List String) :=
  ("" :: t.header) :: t.rows.map fun (name, cells) => name :: cells

/-- Aligned columns, one line for the header and one for each row. -/
def plain (t : TableText) : String := Text.Columns.align t.columns t.cells

/-- Why the lines cannot be aligned: some row has not as many cells as the
    header. -/
def fault? (t : TableText) : Option Fault := Text.Columns.unevenFault? t.columns t.cells

/-- The plain form, or the fault of a table with uneven rows. -/
def render (t : TableText) : Except Fault String := guarded t.fault? t.plain

/-- The JSON form. -/
def json (t : TableText) : Json :=
  .obj [("header", .strs t.header),
    ("rows", .arr (t.rows.map fun (name, cells) => .arr [.str name, .strs cells]))]

/-- The text of a grid whose cells are shown by `cellText`. -/
def ofGrid {α : Type} (g : Grammar) (cellText : α → String) (t : Grid α) : TableText :=
  { header := g.names t.columns
    rows := (t.rows.zip t.cells).map fun (row, cells) => (g.name row, cells.map cellText) }

end TableText

namespace Grammar

/-- A rule as it stands in a cell: `A→X Y`. -/
def ruleCell (g : Grammar) (r : Rule) : String := g.name r.left ++ "→" ++ g.phrase r.shown

/-- The rules of a cell; a dash where there are none. -/
def cellText (g : Grammar) (rules : List Nat) : String :=
  if rules.isEmpty then "-"
  else " / ".intercalate (rules.map fun i => (g.rules[i]?.map g.ruleCell).getD "")

/-- The LL(1) table as text. -/
def tableText (g : Grammar) (t : Table) : TableText := .ofGrid g g.cellText t

/-- The advice table as text. -/
def recoveryText (g : Grammar) (t : Recovery) : TableText := .ofGrid g Advice.label t

end Grammar

end Predictive
