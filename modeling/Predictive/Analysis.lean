import Predictive.Grammar.Reading
import Predictive.Machine
import Predictive.Recovery

/-! # The analysis of a grammar

    A grammar together with everything that is derived from it: its FIRST and
    FOLLOW sets with the number of sweeps that each took, the LL(1) table and
    the advice table. Each part is computed once from the ones before it.
-/

namespace Predictive

/-- A grammar and what follows from it; `skipped` are the lines of its text
    that were no rules. -/
structure Analysis where
  grammar : Grammar
  skipped : List SkippedLine
  first : SymbolSets
  firstSweeps : Nat
  follow : SymbolSets
  followSweeps : Nat
  table : Table
  recovery : Recovery
  deriving DecidableEq

namespace Analysis

/-- The analysis of a reading. -/
def ofReading (r : Reading) : Analysis :=
  let (first, firstSweeps) := r.grammar.first
  let (follow, followSweeps) := r.grammar.follow first
  { grammar := r.grammar
    skipped := r.skipped
    first := first
    firstSweeps := firstSweeps
    follow := follow
    followSweeps := followSweeps
    table := r.grammar.table first follow
    recovery := r.grammar.recovery first follow }

/-- The analysis of a grammar, without skipped lines. -/
def ofGrammar (g : Grammar) : Analysis := ofReading { grammar := g, skipped := [] }

/-- The analysis of a grammar text. -/
def ofText (text : String) : Analysis := ofReading (.ofText text)

/-- The machine of the grammar on an input. -/
def machine (a : Analysis) (input : String) : Machine :=
  { grammar := a.grammar, table := a.table, tokens := tokenize input }

/-- The record of parsing an input; see `Machine.parse`. -/
def parse (a : Analysis) (input : String) (limit : Option Nat) (fuel : Nat) : Option Trace :=
  (a.machine input).parse limit fuel

end Analysis

end Predictive
