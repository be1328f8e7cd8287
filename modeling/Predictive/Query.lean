import Predictive.Analysis

/-! # Questions with numbers from outside

    Look-ups in an analysis by symbol numbers that need not be symbols of its
    grammar: each gives the answer or the fault. Cells of the tables are not
    among them, since a table has nothing to say about numbers that are no
    row or column.
-/

namespace Predictive

namespace Analysis

/-- The answer to a question about one symbol. -/
def ask {α : Type} (a : Analysis) (x : Symbol) (answer : α) : Except Fault α :=
  guarded (a.grammar.symbolFault? x) answer

/-- The name of a symbol. -/
def nameOf (a : Analysis) (x : Symbol) : Except Fault String := a.ask x (a.grammar.name x)

/-- The kind of a symbol. -/
def kindOf (a : Analysis) (x : Symbol) : Except Fault Kind := a.ask x (a.grammar.kind x)

/-- FIRST of a symbol. -/
def firstOf (a : Analysis) (x : Symbol) : Except Fault SymbolSet := a.ask x (a.first.get x)

/-- FOLLOW of a symbol. -/
def followOf (a : Analysis) (x : Symbol) : Except Fault SymbolSet := a.ask x (a.follow.get x)

/-- Whether a symbol can vanish. -/
def vanishes (a : Analysis) (x : Symbol) : Except Fault Bool := a.ask x (a.first.vanishing x)

/-- The names of symbols. -/
def namesOf (a : Analysis) (xs : List Symbol) : Except Fault (List String) :=
  guarded (a.grammar.symbolsFault? xs) (a.grammar.names xs)

/-- What can begin a sequence of symbols, and whether it can vanish. -/
def firstOfSequence (a : Analysis) (xs : List Symbol) : Except Fault (SymbolSet × Bool) :=
  guarded (a.first.sequenceFault? xs) (a.first.ofSequence xs)

end Analysis

/-- The tokens of a trace from a position on. -/
def Trace.remainingFrom (t : Trace) (position : Nat) : Except Fault (List String) :=
  guarded (t.remainingFault? position) (t.remaining position)

end Predictive
