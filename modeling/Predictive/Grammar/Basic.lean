import Predictive.Symbol
import Predictive.Fault

/-! # Grammars

    A grammar is a list of named symbols and a list of rules over their
    numbers. It is made from productions, which are rules written with names
    (`Grammar.ofProductions`): names are numbered in the order in which the
    productions mention them, after `ε` and `$`; each name that some
    production defines is a non-terminal, the others are classified by their
    letters.

    The start symbol is the left side of the first rule.
-/

namespace Predictive

/-- A rule in names: `left` may become the sequence `right`. -/
structure Production where
  left : String
  right : List String
  deriving DecidableEq, Repr

/-- A rule in numbers. The empty right side is the one that vanishes. -/
structure Rule where
  left : Symbol
  right : List Symbol
  deriving DecidableEq, Repr

/-- The right side as it is shown: `ε` stands for nothing. -/
def Rule.shown (r : Rule) : List Symbol :=
  if r.right.isEmpty then [Symbol.epsilon] else r.right

/-- The name and the kind of a symbol. -/
structure Entry where
  name : String
  kind : Kind
  deriving DecidableEq, Repr

/-- Symbol `i` is described by the `i`-th entry; rules are numbered from zero
    in the order of the list. -/
structure Grammar where
  symbols : List Entry
  rules : List Rule
  deriving DecidableEq, Repr

namespace Grammar

/-! ### From productions -/

/-- The names in the order in which they get their numbers. -/
def namesOf (ps : List Production) : List String :=
  (Symbol.epsilonName :: Symbol.endMarkName :: ps.flatMap fun p => p.left :: p.right).eraseDups

/-- The kind of a name among these productions. -/
def kindOf (ps : List Production) (name : String) : Kind :=
  if ps.any (·.left == name) then .nonTerminal else .classify name

/-- The grammar of a list of productions. -/
def ofProductions (ps : List Production) : Grammar :=
  let names := namesOf ps
  { symbols := names.map fun name => ⟨name, kindOf ps name⟩
    rules := ps.map fun p => ⟨names.idxOf p.left, p.right.map names.idxOf⟩ }

/-- The grammar without rules. -/
def empty : Grammar := ofProductions []

instance : Inhabited Grammar := ⟨empty⟩

/-! ### Symbols -/

/-- The number of symbols. -/
def size (g : Grammar) : Nat := g.symbols.length

/-- The name of a symbol; a number that is no symbol has no name. -/
def name (g : Grammar) (x : Symbol) : String := (g.symbols[x]?.map Entry.name).getD ""

/-- The kind of a symbol; a number that is no symbol counts as a terminal. -/
def kind (g : Grammar) (x : Symbol) : Kind := (g.symbols[x]?.map Entry.kind).getD .terminal

/-- The symbol of this name. -/
def symbol? (g : Grammar) (name : String) : Option Symbol :=
  g.symbols.findIdx? (·.name == name)

/-- The symbols of one kind in ascending order. -/
def ofKind (g : Grammar) (k : Kind) : List Symbol :=
  (List.range g.size).filter (g.kind · = k)

/-- The left side of the first rule. -/
def start? (g : Grammar) : Option Symbol := g.rules.head?.map Rule.left

/-- All non-terminals; the start symbol is the first of them. -/
def nonTerminals (g : Grammar) : List Symbol := g.ofKind .nonTerminal

/-- The non-terminals other than the start symbol. -/
def otherNonTerminals (g : Grammar) : List Symbol := g.nonTerminals.filter (some · ≠ g.start?)

/-- The terminals. -/
def terminals (g : Grammar) : List Symbol := g.ofKind .terminal

/-- What can be the next token: a terminal or the end of the input. -/
def lookaheads (g : Grammar) : List Symbol := g.terminals ++ [Symbol.endMark]

/-- The non-terminals that no rule defines. -/
def undefined (g : Grammar) : List Symbol :=
  g.nonTerminals.filter fun x => !g.rules.any (·.left == x)

/-! ### Printing -/

/-- The names of a sequence of symbols. -/
def names (g : Grammar) (xs : List Symbol) : List String := xs.map g.name

/-- A sequence of symbols as text, with spaces between the names. -/
def phrase (g : Grammar) (xs : List Symbol) : String := " ".intercalate (g.names xs)

/-- A rule as text: `A -> X Y`, or `A -> ε` if it vanishes. -/
def ruleText (g : Grammar) (r : Rule) : String := g.name r.left ++ " -> " ++ g.phrase r.shown

/-- The `i`-th rule as text. -/
def ruleTextAt (g : Grammar) (i : Nat) : String := (g.rules[i]?.map g.ruleText).getD ""

/-- The grammar as text, one rule per line. -/
def text (g : Grammar) : String := "\n".intercalate (g.rules.map g.ruleText)

/-! ### Faults -/

/-- The fault of using a number that is no symbol. -/
def symbolFault? (g : Grammar) (x : Symbol) : Option Fault := Fault.ofIndex? g.size x

/-- The fault of the first number that is no symbol. -/
def symbolsFault? (g : Grammar) (xs : List Symbol) : Option Fault := xs.findSome? g.symbolFault?

/-- The fault of using a number that is no rule. -/
def ruleFault? (g : Grammar) (i : Nat) : Option Fault := Fault.ofIndex? g.rules.length i

end Grammar

end Predictive
