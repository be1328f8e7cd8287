import Predictive.Grammar.Reading

/-! # The register of a grammar text

    How the symbols of a grammar text come to their numbers, name by name. The
    register holds `ε` and `$` from the beginning. The left side of the first
    rule is entered as the start symbol. Then the rules are gone through: a name
    that is in the register has its number there, a new name is entered under
    the next number and listed by its kind (`intern`).

    `Grammar.ofProductions` says in one line what grammar this is.
-/

namespace Predictive

namespace Register

/-- A symbol as it is entered. -/
structure SymbolItem where
  number : Symbol
  name : String
  kind : Kind
  deriving DecidableEq, Repr

/-- A rule as it is entered: its right side is never empty, `ε` stands for the
    one that vanishes. -/
structure RuleItem where
  number : Nat
  left : Symbol
  right : List Symbol
  deriving DecidableEq, Repr

end Register

/-- Symbols and rules in the order in which they were entered. The start symbol
    is not among `nonTerminals`. -/
structure Register where
  symbols : List Register.SymbolItem
  /-- The number of a name. -/
  find? : String → Option Symbol
  start? : Option Symbol
  nonTerminals : List Symbol
  terminals : List Symbol
  rules : List Register.RuleItem

namespace Register

/-! ### Names -/

/-- Enters a name under the next number. -/
def add (reg : Register) (name : String) (kind : Kind) : Register :=
  { reg with
    symbols := reg.symbols ++ [⟨reg.symbols.length, name, kind⟩]
    find? := fun other => if other = name then some reg.symbols.length else reg.find? other }

/-- Lists a symbol by its kind. -/
def list (reg : Register) (x : Symbol) : Kind → Register
  | .terminal => { reg with terminals := reg.terminals ++ [x] }
  | .nonTerminal =>
    if reg.start? = some x then reg else { reg with nonTerminals := reg.nonTerminals ++ [x] }
  | .epsilon | .endMarker => reg

/-- The number of a name; a new name is entered and listed, one that is known
    keeps its kind. -/
def intern (reg : Register) (name : String) (kind : Kind) : Register × Symbol :=
  match reg.find? name with
  | some x => (reg, x)
  | none => ((reg.add name kind).list reg.symbols.length kind, reg.symbols.length)

/-- The numbers of names, from left to right. -/
def internAll (kindOf : String → Kind) (reg : Register) : List String → Register × List Symbol
  | [] => (reg, [])
  | name :: names =>
    let (reg, x) := reg.intern name (kindOf name)
    let (reg, xs) := reg.internAll kindOf names
    (reg, x :: xs)

/-! ### Rules -/

/-- Enters a rule under the next number. -/
def addRule (reg : Register) (left : Symbol) (right : List Symbol) : Register :=
  { reg with
    rules := reg.rules ++
      [⟨reg.rules.length, left, if right.isEmpty then [Symbol.epsilon] else right⟩] }

/-- Enters one alternative of a left side. -/
def addAlternative (kindOf : String → Kind) (left : Symbol) (reg : Register)
    (names : List String) : Register :=
  let (reg, right) := reg.internAll kindOf names
  reg.addRule left right

/-- Enters a line: its left side, then its alternatives. -/
def addLine (kindOf : String → Kind) (reg : Register) (line : RuleLine) : Register :=
  let (reg, left) := reg.intern line.left .nonTerminal
  line.alternatives.foldl (addAlternative kindOf left) reg

/-! ### Texts -/

/-- The register that holds nothing. -/
def empty : Register :=
  { symbols := [], find? := fun _ => none, start? := none, nonTerminals := [], terminals := [],
    rules := [] }

/-- The register with `ε` and `$`. -/
def blank : Register :=
  (empty.add Symbol.epsilonName .epsilon).add Symbol.endMarkName .endMarker

/-- The register with the start symbol, before the first line is entered. -/
def opened (lines : List RuleLine) : Register :=
  match lines.head? with
  | none => blank
  | some line => { blank.add line.left .nonTerminal with start? := some blank.symbols.length }

/-- The kind of a name among these lines: what one of them defines is a
    non-terminal. -/
def kindAmong (lines : List RuleLine) (name : String) : Kind :=
  if lines.any (·.left == name) then .nonTerminal else .classify name

/-- The register of the lines of a text. -/
def ofLines (lines : List RuleLine) : Register :=
  lines.foldl (addLine (kindAmong lines)) (opened lines)

/-- The register of a grammar text. -/
def ofText (text : String) : Register :=
  ofLines ((Reading.lines text.toList).filterMap Except.toOption)

end Register

/-- What a grammar says as a register. -/
def Grammar.register (g : Grammar) : Register :=
  { symbols := g.symbols.mapIdx fun i e => ⟨i, e.name, e.kind⟩
    find? := g.symbol?
    start? := g.start?
    nonTerminals := g.otherNonTerminals
    terminals := g.terminals
    rules := g.rules.mapIdx fun i r => ⟨i, r.left, r.shown⟩ }

example : (Register.ofText "S -> A S | a\nA -> S |").nonTerminals = [3] := by decide

example : (Register.ofText "S -> A S | a\nA -> S |").rules
    = [⟨0, 2, [3, 2]⟩, ⟨1, 2, [4]⟩, ⟨2, 3, [2]⟩, ⟨3, 3, [0]⟩] := by decide

end Predictive
