import Predictive.Grammar.Basic

/-! # Records of a parse

    A trace holds the tokens, the steps in order and how the parse ended. A
    step is recorded as the machine finds the stack and the input, before its
    action changes them.
-/

namespace Predictive

/-- What the machine does in a step. -/
inductive Action where
  /-- Replace the non-terminal on top by the right side of this rule. -/
  | expand (rule : Nat)
  /-- Take this terminal off the stack together with the current token. -/
  | advance (terminal : Symbol)
  deriving DecidableEq, Repr

/-- One step: the stack from the top down, the place of the current token,
    and what is done. -/
structure Step where
  stack : List Symbol
  position : Nat
  action : Action
  deriving DecidableEq, Repr

/-- Why an input is rejected. -/
inductive Rejection where
  /-- No rule is predicted for the non-terminal on top and the token. -/
  | noRule (nonTerminal : Symbol) (token : String)
  /-- The terminal on top has another name than the token. -/
  | mismatch (expected : Symbol) (token : String)
  /-- The symbol on top is neither a terminal nor a non-terminal. -/
  | unexpected (symbol : Symbol)
  deriving DecidableEq, Repr

/-- The outcome of a parse that comes to its end. -/
inductive Verdict where
  | accepted
  | rejected (reason : Rejection)
  deriving DecidableEq, Repr

/-- How a parse ended. -/
inductive Status where
  | finished (verdict : Verdict)
  /-- The parse was not over after this many steps. -/
  | gaveUp (limit : Nat)
  deriving DecidableEq, Repr

/-- The record of a parse. -/
structure Trace where
  tokens : List String
  steps : List Step
  status : Status
  deriving DecidableEq, Repr

namespace Trace

/-- The input was accepted. -/
def accepted (t : Trace) : Bool := t.status = .finished .accepted

/-- The tokens from a position on. -/
def remaining (t : Trace) (position : Nat) : List String := t.tokens.drop position

/-- The fault of a position beyond the tokens. -/
def remainingFault? (t : Trace) (position : Nat) : Option Fault :=
  Fault.ofStart? t.tokens.length position

end Trace

/-! ### Faults of a trace against a grammar

A trace can be shown with another grammar than the one it was made with. -/

/-- The fault of an action with a number that the grammar does not have. -/
def Action.fault? (g : Grammar) : Action → Option Fault
  | expand rule => g.ruleFault? rule
  | advance terminal => g.symbolFault? terminal

/-- The first fault of a step: its stack from the bottom up, its position, its
    action. -/
def Step.fault? (g : Grammar) (t : Trace) (s : Step) : Option Fault :=
  g.symbolsFault? s.stack.reverse <|> t.remainingFault? s.position <|> s.action.fault? g

/-- The fault of a status that names a symbol which the grammar does not have. -/
def Status.fault? (g : Grammar) : Status → Option Fault
  | finished (.rejected (.noRule x _)) => g.symbolFault? x
  | finished (.rejected (.mismatch x _)) => g.symbolFault? x
  | finished (.rejected (.unexpected x)) => g.symbolFault? x
  | finished .accepted | gaveUp _ => none

/-- The first fault of a trace: its steps in order, then its status. -/
def Trace.fault? (g : Grammar) (t : Trace) : Option Fault :=
  t.steps.findSome? (·.fault? g t) <|> t.status.fault? g

end Predictive
