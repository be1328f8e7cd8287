import Predictive.Table
import Predictive.Json

/-! # Conflicts as text

    A conflict is shown with the names of its cell and the texts of the rules
    in it.
-/

namespace Predictive

/-- A conflict with names and rule texts. -/
structure ConflictText where
  nonTerminal : String
  terminal : String
  rules : List String
  deriving DecidableEq, Repr

namespace ConflictText

/-- The names and texts of a conflict. -/
def ofConflict (g : Grammar) (c : Conflict) : ConflictText :=
  { nonTerminal := g.name c.nonTerminal
    terminal := g.name c.lookahead
    rules := c.rules.map g.ruleTextAt }

/-- One line for one conflict. -/
def plain (c : ConflictText) : String :=
  "Conflict in " ++ c.nonTerminal ++ " for terminal " ++ c.terminal ++ ": " ++
    " / ".intercalate c.rules

/-- The JSON form. -/
def json (c : ConflictText) : Json :=
  .obj [("non_terminal", .str c.nonTerminal), ("terminal", .str c.terminal),
    ("rules", .strs c.rules)]

/-- The plain form of a list of conflicts: whether the grammar is LL(1), and
    the conflicts if it is not. -/
def plainList (conflicts : List ConflictText) : String :=
  if conflicts.isEmpty then "Grammar is LL(1)"
  else "\n".intercalate ("Grammar is not LL(1):" :: conflicts.map fun c => "- " ++ c.plain)

/-- The JSON form of a list of conflicts. -/
def jsonList (conflicts : List ConflictText) : Json := .arr (conflicts.map json)

end ConflictText

end Predictive
