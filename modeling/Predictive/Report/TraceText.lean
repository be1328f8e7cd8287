import Predictive.DerivationTree
import Predictive.Json
import Predictive.Text.Columns

/-! # Traces and trees as text

    Each step of a trace is shown with its stack from the bottom up, the
    tokens that remain, and the rule or the match that it makes.
-/

namespace Predictive

/-- A step as strings. -/
structure StepText where
  stack : String
  input : String
  rule : String
  deriving DecidableEq, Repr

/-- A trace as strings. -/
structure TraceText where
  accepted : Bool
  status : String
  steps : List StepText
  deriving DecidableEq, Repr

namespace Grammar

/-- The text of an action: the rule of an expansion, or the terminal that is
    matched. -/
def actionText (g : Grammar) : Action → String
  | .expand rule => g.ruleTextAt rule
  | .advance terminal => "match " ++ g.name terminal

/-- A step in names. -/
def stepText (g : Grammar) (t : Trace) (s : Step) : StepText :=
  { stack := g.phrase s.stack.reverse
    input := " ".intercalate (t.remaining s.position)
    rule := g.actionText s.action }

/-- The text of a status. -/
def statusText (g : Grammar) : Status → String
  | .finished .accepted => "accepted"
  | .finished (.rejected (.noRule x token)) => "no rule for " ++ g.name x ++ " on '" ++ token ++ "'"
  | .finished (.rejected (.mismatch x token)) =>
    "expected '" ++ g.name x ++ "' but found '" ++ token ++ "'"
  | .finished (.rejected (.unexpected x)) => "unexpected '" ++ g.name x ++ "' on the stack"
  | .gaveUp limit => "gave up after " ++ toString limit ++ " steps"

/-- A trace in names. -/
def traceText (g : Grammar) (t : Trace) : TraceText :=
  { accepted := t.accepted
    status := g.statusText t.status
    steps := t.steps.map (g.stepText t) }

/-- A trace in the names of a grammar, which need not be the one it was made
    with. -/
def showTrace (g : Grammar) (t : Trace) : Except Fault TraceText :=
  guarded (t.fault? g) (g.traceText t)

end Grammar

namespace TraceText

/-- The plain form: the steps in three aligned columns, and the outcome. -/
def plain (t : TraceText) : String :=
  Text.Columns.align 3
      (["Stack", "Input", "Rule"] :: t.steps.map fun s => [s.stack, s.input, s.rule]) ++
    "\n\n" ++ (if t.accepted then "Accepted" else "Rejected") ++ " (" ++ t.status ++ ")"

/-- A step in JSON. -/
def stepJson (s : StepText) : Json :=
  .obj [("stack", .str s.stack), ("input", .str s.input), ("rule", .str s.rule)]

/-- The JSON form. -/
def json (t : TraceText) : Json :=
  .obj [("accepted", .bool t.accepted), ("status", .str t.status),
    ("steps", .arr (t.steps.map stepJson))]

end TraceText

/-- A tree in JSON: its nodes in order. -/
def DerivationTree.json (t : DerivationTree) : Json :=
  .obj [("nodes", .arr (t.nodes.map fun n =>
    .obj [("symbol", .str n.symbol), ("children", .arr (n.children.map .num))]))]

/-- The tree of a trace in JSON, or null where there is none. -/
def Grammar.treeJson (g : Grammar) (t : Trace) : Json :=
  match DerivationTree.ofTrace g t with
  | .ok tree => tree.json
  | .error _ => .null

end Predictive
