import Predictive.Trace

/-! # Derivation trees

    The tree of an accepted input is rebuilt from the trace. Nodes are
    numbered as they appear: the root is node 0, and an expansion numbers the
    children of its node from left to right. A rule that vanishes gives its
    node one leaf, `ε`.

    The nodes that still wait for their step are kept in the order in which
    the machine will come to them, so they follow its stack.
-/

namespace Predictive

/-- A node: the name of its symbol and the numbers of its children. -/
structure Node where
  symbol : String
  children : List Nat
  deriving DecidableEq, Repr

/-- A tree as the list of its nodes; node 0 is the root. -/
structure DerivationTree where
  nodes : List Node
  deriving DecidableEq, Repr

/-- Why a trace has no tree. -/
inductive TreeError where
  /-- The input was not accepted. -/
  | notAccepted
  /-- The grammar has no start symbol. -/
  | noStart
  /-- A step finds no node that waits for it. -/
  | nothingPending
  /-- A step expands by a rule that the grammar does not have. -/
  | unknownRule (fault : Fault)
  deriving DecidableEq, Repr

namespace DerivationTree

/-- A tree that is being rebuilt: the nodes so far, and those that wait. -/
structure Growth where
  nodes : List Node
  pending : List Nat
  deriving DecidableEq, Repr

/-- The start symbol waits alone. -/
def Growth.root (name : String) : Growth := { nodes := [⟨name, []⟩], pending := [0] }

/-- Gives `node` a child for each symbol that the rule shows. The children of
    a rule that vanishes do not wait: `ε` is never on the stack. -/
def Growth.expand (g : Grammar) (r : Rule) (node : Nat) (t : Growth) : Growth :=
  let children := List.range' t.nodes.length r.shown.length
  { nodes := t.nodes.modify node (fun n => { n with children := children }) ++
      (g.names r.shown).map (⟨·, []⟩)
    pending := (if r.right.isEmpty then [] else children) ++ t.pending }

/-- One step takes the first node that waits. -/
def Growth.step (g : Grammar) (t : Growth) (action : Action) : Except TreeError Growth :=
  match t.pending with
  | [] => .error .nothingPending
  | node :: pending =>
    match action with
    | .advance _ => .ok { t with pending := pending }
    | .expand rule =>
      match g.rules[rule]? with
      | some r => .ok (Growth.expand g r node { t with pending := pending })
      | none => .error (.unknownRule (.index g.rules.length rule))

/-- All steps in order. -/
def grow (g : Grammar) (t : Growth) : List Step → Except TreeError Growth
  | [] => .ok t
  | s :: steps => (t.step g s.action).bind fun t => grow g t steps

/-- The tree of a trace. -/
def ofTrace (g : Grammar) (t : Trace) : Except TreeError DerivationTree :=
  if t.accepted then
    match g.start? with
    | none => .error .noStart
    | some start =>
      (grow g (.root (g.name start)) t.steps).map fun grown => ⟨grown.nodes⟩
  else .error .notAccepted

/-- Visits `fuel` nodes, the first of the list and then its children before
    the others, and collects the names of those without children. -/
def leavesFrom (t : DerivationTree) : Nat → List Nat → List String
  | 0, _ => []
  | _, [] => []
  | fuel + 1, i :: waiting =>
    match t.nodes[i]? with
    | none => t.leavesFrom fuel waiting
    | some node =>
      if node.children.isEmpty then node.symbol :: t.leavesFrom fuel waiting
      else t.leavesFrom fuel (node.children ++ waiting)

/-- The names of the leaves from left to right. A tree has each node in one
    place, so as many visits as nodes are enough. -/
def leaves (t : DerivationTree) : List String := t.leavesFrom t.nodes.length [0]

/-- The name of the root. -/
def rootName (t : DerivationTree) : String := (t.nodes.head?.map Node.symbol).getD ""

end DerivationTree

end Predictive
