import Predictive.Analysis
import Predictive.Text.Quoted
import Predictive.Text.Terminal

/-! # Log records

    What the program reports on the side: skipped lines, undefined
    non-terminals, how many sweeps the sets took, the size of the table and
    its conflicts, the steps of a parse, and failures.
-/

namespace Predictive.Log

/-- Severities, the gravest first. -/
inductive Level where
  | error
  | warn
  | info
  | debug
  | trace
  deriving DecidableEq, Repr

namespace Level

/-- The name in a record. -/
def name : Level → String
  | error => "ERROR"
  | warn => "WARN"
  | info => "INFO"
  | debug => "DEBUG"
  | trace => "TRACE"

/-- The place in the order of severities. -/
def rank : Level → Nat
  | error => 1
  | warn => 2
  | info => 3
  | debug => 4
  | trace => 5

end Level

/-- The part of the program that a record comes from. -/
inductive Component where
  | program
  | reading
  | analysis
  | sets
  | table
  | machine
  deriving DecidableEq, Repr

/-- The path by which a record names its component. -/
def Component.path : Component → String
  | program => "ll1_analyzer"
  | reading => "ll1_analyzer::grammar::parse"
  | analysis => "ll1_analyzer::analyzer"
  | sets => "ll1_analyzer::grammar::first_follow"
  | table => "ll1_analyzer::grammar::ll1_parsing_table"
  | machine => "ll1_analyzer::grammar::ll1_parse"

/-- One record. -/
structure Record where
  level : Level
  component : Component
  message : String
  deriving DecidableEq, Repr

/-- The record without terminal control in its message. -/
def Record.plain (r : Record) : Record := { r with message := Text.Terminal.plain r.message }

/-- A record on a line of its own. -/
def Record.line (r : Record) : String :=
  "[" ++ r.level.name ++ " " ++ r.component.path ++ "] " ++ r.message

/-- The least grave level that is kept; with none nothing is kept. -/
abbrev Threshold := Option Level

namespace Threshold

/-- The threshold of this name. -/
def ofName? (name : String) : Option Threshold :=
  [("off", none), ("error", some .error), ("warn", some .warn), ("info", some .info),
    ("debug", some .debug), ("trace", some Level.trace)].lookup name

/-- A record of this level is kept. -/
def admits (t : Threshold) (l : Level) : Bool := t.any fun least => l.rank ≤ least.rank

/-- The records that are kept. -/
def keep (t : Threshold) (records : List Record) : List Record :=
  records.filter fun r => t.admits r.level

end Threshold

/-- The warning about a skipped line. -/
def skippedLine (s : SkippedLine) : Record := ⟨.warn, .reading, "skipping " ++ s.message⟩

/-- The warning about a non-terminal without rules. -/
def undefinedSymbol (g : Grammar) (x : Symbol) : Record :=
  ⟨.warn, .analysis, g.name x ++ " is used but has no rule"⟩

/-- The number of sweeps that a family of sets took. -/
def convergence (title : String) (sweeps : Nat) : Record :=
  ⟨.debug, .sets, title ++ " sets converged after " ++ toString sweeps ++ " passes"⟩

/-- The size of the table. -/
def tableSize (t : Table) : Record :=
  ⟨.debug, .table, "built LL(1) table with " ++ toString t.rows.length ++ " rows and " ++
    toString t.columns.length ++ " columns"⟩

/-- The warning about a conflict. -/
def conflict (g : Grammar) (c : Conflict) : Record :=
  ⟨.warn, .table, "LL(1) conflict in " ++ g.name c.nonTerminal ++ " for terminal " ++
    g.name c.lookahead ++ ": " ++ Text.Quoted.list (c.rules.map g.ruleTextAt)⟩

/-- The short form of an action. -/
def actionLabel : Action → String
  | .expand rule => "Expand(" ++ toString rule ++ ")"
  | .advance terminal => "Match(" ++ toString terminal ++ ")"

/-- A step of a parse. -/
def step (g : Grammar) (t : Trace) (s : Step) : Record :=
  ⟨.trace, .machine, "stack [" ++ g.phrase s.stack.reverse ++ "] input [" ++
    " ".intercalate (t.remaining s.position) ++ "] " ++ actionLabel s.action⟩

/-- The records of an analysis in the order in which its parts are made. -/
def ofAnalysis (a : Analysis) : List Record :=
  a.skipped.map skippedLine ++ a.grammar.undefined.map (undefinedSymbol a.grammar) ++
    [convergence "FIRST" a.firstSweeps, convergence "FOLLOW" a.followSweeps, tableSize a.table] ++
    a.table.conflicts.map (conflict a.grammar)

/-- The records of a parse. -/
def ofTrace (g : Grammar) (t : Trace) : List Record := t.steps.map (step g t)

end Predictive.Log
