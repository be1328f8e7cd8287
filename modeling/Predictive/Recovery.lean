import Predictive.Grid
import Predictive.Follow

/-! # Advice for panic-mode recovery

    When the table has no rule for a non-terminal and a token, a parser may
    give up the non-terminal or skip the token. The advice table says which;
    the machine itself never consults it.
-/

namespace Predictive

/-- What to do about a non-terminal and a token. -/
inductive Advice where
  /-- The token can follow the non-terminal: go on as if it had been read. -/
  | extract
  /-- The token can neither begin nor follow the non-terminal: skip it. -/
  | explore
  /-- The token can begin the non-terminal. -/
  | proceed
  deriving DecidableEq, Repr

/-- The short form used in the table. -/
def Advice.label : Advice → String
  | extract => "EXT"
  | explore => "EP"
  | proceed => "-"

/-- Advice for each non-terminal and lookahead. -/
abbrev Recovery := Grid Advice

/-- The advice for a non-terminal and a token; following wins over beginning. -/
def Advice.choose (first follow : SymbolSets) (nonTerminal token : Symbol) : Advice :=
  if token ∈ follow.get nonTerminal then .extract
  else if token ∈ first.get nonTerminal then .proceed
  else .explore

/-- The advice table of a grammar. -/
def Grammar.recovery (g : Grammar) (first follow : SymbolSets) : Recovery :=
  .tabulate g.nonTerminals g.lookaheads (Advice.choose first follow)

end Predictive
