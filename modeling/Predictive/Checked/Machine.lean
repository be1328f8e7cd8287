import Predictive.Checked.Tables
import Predictive.DerivationTree
import Predictive.Machine

/-! # Parses and trees with every look-up

    A step of the machine looks up the kind of the symbol on top, then the cell
    of a non-terminal or the name of a terminal; the rule of an expansion is
    looked up to put its right side on the stack. The top of the stack and the
    current token need not be there: without them the machine has a verdict.

    The tree of a trace is made by entering the children of a node at its place,
    and its leaves are collected by visiting nodes until none is left.
-/

namespace Predictive.Checked

/-! ### The machine -/

/-- The rules predicted for a non-terminal and a token. -/
def predicted (m : Machine) (x : Symbol) (token : String) : Except Fault (List Nat) :=
  match m.grammar.symbol? token with
  | some lookahead => rulesAt m.table x lookahead
  | none => return []

/-- The next action, or the verdict if the parse is over. -/
def next (m : Machine) (c : Configuration) : Except Fault (Except Verdict Action) :=
  match c.stack, m.tokens[c.position]? with
  | top :: _, some token =>
    if top = Symbol.endMark ∧ token = Symbol.endMarkName then return .error .accepted
    else do
      match ← kindOf m.grammar top with
      | .nonTerminal =>
        let rules ← predicted m top token
        match rules.head? with
        | some rule => return .ok (.expand rule)
        | none => return .error (.rejected (.noRule top token))
      | .terminal | .endMarker =>
        let name ← nameOf m.grammar top
        return if name = token then .ok (.advance top)
          else .error (.rejected (.mismatch top token))
      | .epsilon => return .error (.rejected (.unexpected top))
  | _, _ => return .error (.rejected (.unexpected Symbol.endMark))

/-- What an action makes of a configuration. -/
def apply (m : Machine) (c : Configuration) : Action → Except Fault Configuration
  | .expand rule => do
    let r ← read m.grammar.rules rule
    return { c with stack := r.right ++ c.stack.tail }
  | .advance _ => return { stack := c.stack.tail, position := c.position + 1 }

/-- At most `fuel` steps from a configuration, and the verdict if the parse is
    over after them. -/
def run (m : Machine) : Nat → Configuration → Except Fault (List Step × Option Verdict)
  | 0, c => do
    match ← next m c with
    | .error verdict => return ([], some verdict)
    | .ok _ => return ([], none)
  | fuel + 1, c => do
    match ← next m c with
    | .error verdict => return ([], some verdict)
    | .ok action =>
      let after ← apply m c action
      let (steps, verdict) ← run m fuel after
      return (⟨c.stack, c.position, action⟩ :: steps, verdict)

/-- The record of a parse that gives up rather than make more than `limit`
    steps. -/
def parseWithin (m : Machine) (limit : Nat) : Except Fault Trace := do
  let (steps, verdict) ← run m limit m.initial
  return { tokens := m.tokens
           steps := steps
           status := (verdict.map Status.finished).getD (.gaveUp limit) }

/-! ### Trees -/

open DerivationTree

/-- Gives `node` a child for each symbol that the rule shows; the children are
    entered at its place once they have their numbers. -/
def expand (g : Grammar) (r : Rule) (node : Nat) (t : Growth) : Except Fault Growth := do
  let names ← namesOf g r.shown
  let children := List.range' t.nodes.length r.shown.length
  let nodes ← update (t.nodes ++ names.map (⟨·, []⟩)) node fun n => { n with children := children }
  return { nodes := nodes, pending := (if r.right.isEmpty then [] else children) ++ t.pending }

/-- One step takes the first node that waits, if there is one. -/
def growStep (g : Grammar) (t : Growth) (action : Action) : Except Fault (Option Growth) :=
  match t.pending with
  | [] => return none
  | node :: pending =>
    match action with
    | .advance _ => return some { t with pending := pending }
    | .expand rule => do
      let r ← read g.rules rule
      let grown ← expand g r node { t with pending := pending }
      return some grown

/-- All steps in order. -/
def grow (g : Grammar) (t : Growth) : List Step → Except Fault (Option Growth)
  | [] => return some t
  | s :: steps => do
    match ← growStep g t s.action with
    | some t => grow g t steps
    | none => return none

/-- The tree of a trace, if the input was accepted and the grammar has a start
    symbol. -/
def treeOf (g : Grammar) (t : Trace) : Except Fault (Option DerivationTree) :=
  if t.accepted then
    match g.start? with
    | none => return none
    | some start => do
      let name ← nameOf g start
      let grown ← grow g (.root name) t.steps
      return grown.map fun grown => ⟨grown.nodes⟩
  else return none

/-- The names of the leaves below the nodes that wait; nothing if some still
    wait after `fuel` visits. -/
def leavesFrom (t : DerivationTree) : Nat → List Nat → Except Fault (Option (List String))
  | _, [] => return some []
  | 0, _ :: _ => return none
  | fuel + 1, i :: waiting => do
    let node ← read t.nodes i
    if node.children.isEmpty then
      let names ← leavesFrom t fuel waiting
      return names.map (node.symbol :: ·)
    else leavesFrom t fuel (node.children ++ waiting)

/-- The names of the leaves from left to right, if as many visits as nodes are
    enough. -/
def leaves (t : DerivationTree) : Except Fault (Option (List String)) :=
  leavesFrom t t.nodes.length [0]

end Predictive.Checked
