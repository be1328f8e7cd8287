import Predictive.Text.LetterCase

/-! # Symbols and their kinds

    The symbols of a grammar are numbered in the order in which its text
    names them. Two symbols are in every grammar: `ε`, which stands for
    nothing, and `$`, which marks the end of the input.

    A name that no rule defines gets its kind from its letters (`classify`).
-/

namespace Predictive

/-- A symbol is its number in the grammar. -/
abbrev Symbol := Nat

namespace Symbol

/-- The number of `ε` in every grammar. -/
def epsilon : Symbol := 0

/-- The number of `$` in every grammar. -/
def endMark : Symbol := 1

/-- The name of the symbol that stands for nothing. -/
def epsilonName : String := "ε"

/-- The name of the end of the input. -/
def endMarkName : String := "$"

end Symbol

/-- What a symbol is for. -/
inductive Kind where
  | terminal
  | nonTerminal
  | epsilon
  | endMarker
  deriving DecidableEq, Repr

namespace Kind

/-- Reads like a non-terminal: it has an upper-case character and no
    lower-case one (`E`, `E'`, `ID2`), or it is longer than one character and
    begins with an upper-case one (`Expr`). -/
def looksNonTerminal (name : List Char) : Bool :=
  (name.any Text.isUpper && !name.any Text.isLower) ||
  (name.length > 1 && name.head?.any Text.isUpper)

/-- The kind of a name that is the left side of no rule. -/
def classify (name : String) : Kind :=
  if name = Symbol.epsilonName then epsilon
  else if name = Symbol.endMarkName then endMarker
  else if looksNonTerminal name.toList then nonTerminal
  else terminal

example : ["E'", "Expr", "id", "eXPR", "ε", "$"].map classify
    = [nonTerminal, nonTerminal, terminal, terminal, epsilon, endMarker] := by decide

end Kind

end Predictive
