import Predictive.Table
import Predictive.Trace
import Predictive.Phrase

/-! # The predictive machine

    The machine reads tokens from left to right with a stack of symbols that
    it still has to see. On a non-terminal it takes the first rule predicted
    for the current token, on a terminal it compares names. It accepts when
    it meets `$` on both sides.

    `Machine.run` makes a bounded number of steps; `Machine.parseWithin`
    records a parse that gives up at a limit, `Machine.parse?` one without a
    limit, as far as some number of steps is enough for it.
-/

namespace Predictive

/-- Everything that a parse depends on. -/
structure Machine where
  grammar : Grammar
  table : Table
  tokens : List String
  deriving Repr

/-- Where a parse stands: the stack from the top down, and the place of the
    current token. -/
structure Configuration where
  stack : List Symbol
  position : Nat
  deriving DecidableEq, Repr

namespace Machine

/-- The beginning: the start symbol, if there is one, on top of `$`. -/
def initial (m : Machine) : Configuration :=
  { stack := m.grammar.start?.toList ++ [Symbol.endMark], position := 0 }

/-- The rule to expand a non-terminal with: the first one predicted for the
    token. -/
def ruleFor? (m : Machine) (nonTerminal : Symbol) (token : String) : Option Nat :=
  (m.grammar.symbol? token).bind fun lookahead => (m.table.rulesAt nonTerminal lookahead).head?

/-- The next action, or the verdict if the parse is over. -/
def next (m : Machine) (c : Configuration) : Except Verdict Action :=
  match c.stack, m.tokens[c.position]? with
  | top :: _, some token =>
    if top = Symbol.endMark ∧ token = Symbol.endMarkName then .error .accepted
    else match m.grammar.kind top with
      | .nonTerminal =>
        match m.ruleFor? top token with
        | some rule => .ok (.expand rule)
        | none => .error (.rejected (.noRule top token))
      | .terminal | .endMarker =>
        if m.grammar.name top = token then .ok (.advance top)
        else .error (.rejected (.mismatch top token))
      | .epsilon => .error (.rejected (.unexpected top))
  | _, _ => .error (.rejected (.unexpected Symbol.endMark))

/-- The right side of a rule. -/
def rightOf (m : Machine) (rule : Nat) : List Symbol :=
  (m.grammar.rules[rule]?.map Rule.right).getD []

/-- What an action makes of a configuration. -/
def apply (m : Machine) (c : Configuration) : Action → Configuration
  | .expand rule => { c with stack := m.rightOf rule ++ c.stack.tail }
  | .advance _ => { stack := c.stack.tail, position := c.position + 1 }

/-- At most `fuel` steps from a configuration: the steps, and the verdict if
    the parse is over after them. -/
def run (m : Machine) : Nat → Configuration → List Step × Option Verdict
  | fuel, c =>
    match m.next c with
    | .error verdict => ([], some verdict)
    | .ok action =>
      match fuel with
      | 0 => ([], none)
      | fuel + 1 =>
        let (steps, verdict) := m.run fuel (m.apply c action)
        (⟨c.stack, c.position, action⟩ :: steps, verdict)

/-- The record of a parse that gives up rather than make more than `limit`
    steps. -/
def parseWithin (m : Machine) (limit : Nat) : Trace :=
  let (steps, verdict) := m.run limit m.initial
  { tokens := m.tokens
    steps := steps
    status := (verdict.map Status.finished).getD (.gaveUp limit) }

/-- The record of a parse without a limit, if it is over after `fuel` steps. -/
def parse? (m : Machine) (fuel : Nat) : Option Trace :=
  let (steps, verdict) := m.run fuel m.initial
  verdict.map fun v => { tokens := m.tokens, steps := steps, status := .finished v }

/-- The record of a parse under an optional limit. Without a limit it is there
    only if `fuel` steps are enough. -/
def parse (m : Machine) (limit : Option Nat) (fuel : Nat) : Option Trace :=
  match limit with
  | some limit => some (m.parseWithin limit)
  | none => m.parse? fuel

end Machine

end Predictive
