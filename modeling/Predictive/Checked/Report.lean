import Predictive.Checked.Tables
import Predictive.Log
import Predictive.Report.Export

/-! # Analyses and reports with every look-up

    The analysis of a text, the texts of its parts and of a trace, the records of
    the log, and the alignment of columns. An aligned table has as many columns
    as its first row; the width of a column is the largest of its cells in all
    rows, and each row takes a width for each of its cells. A column can be as
    wide as `widest` and no wider.
-/

namespace Predictive.Checked

/-- The analysis of a grammar text. -/
def analysis (text : String) : Except Fault Analysis := do
  let reading := Reading.ofText text
  let first ← first reading.grammar
  let follow ← follow reading.grammar first.1
  let table ← table reading.grammar first.1 follow.1
  let recovery ← recovery reading.grammar first.1 follow.1
  return { grammar := reading.grammar
           skipped := reading.skipped
           first := first.1
           firstSweeps := first.2
           follow := follow.1
           followSweeps := follow.2
           table := table
           recovery := recovery }

/-! ### Aligned columns -/

/-- The width of the widest cell in column `j`. -/
def width (rows : List (List String)) (j : Nat) : Except Fault Nat := do
  let lengths ← rows.mapM fun row => do
    let cell ← read row j
    return cell.length
  return lengths.foldl max 0

/-- The most characters that a text can be padded to. -/
def widest : Nat := 65535

/-- The text with blanks before it; the widths are numbered from 0 to `widest`. -/
def pad (width : Nat) (cell : String) : Except Fault String :=
  guarded (Fault.ofIndex? (widest + 1) width) (Text.Columns.padLeft width cell)

/-- One line: each cell as wide as the column it stands in. -/
def line (widths : List Nat) (row : List String) : Except Fault String := do
  let cells ← row.zipIdx.mapM fun (cell, j) => do
    let width ← read widths j
    pad width cell
  return " | ".intercalate cells

/-- All rows, one line each, in as many columns as the first row has cells. -/
def align (rows : List (List String)) : Except Fault String := do
  let widths ← (List.range ((rows.head?.map List.length).getD 0)).mapM (width rows)
  let lines ← rows.mapM (line widths)
  return "\n".intercalate lines

/-! ### Grammars -/

/-- A symbol and its set in names. -/
def setText (g : Grammar) (sets : SymbolSets) (x : Symbol) : Except Fault SetText := do
  let s ← read sets x
  let symbol ← nameOf g x
  let members ← namesOf g (Grammar.displayed s)
  return ⟨symbol, members⟩

/-- The name of the start symbol, if there is one. -/
def startName (g : Grammar) : Except Fault (Option String) :=
  match g.start? with
  | some start => do
    let name ← nameOf g start
    return some name
  | none => return none

/-- The `i`-th rule with names. -/
def ruleLine (g : Grammar) (r : Rule) (i : Nat) : Except Fault RuleText := do
  let left ← nameOf g r.left
  let right ← namesOf g r.shown
  return ⟨Grammar.ruleName i, left, right⟩

/-- What is shown of a grammar with these sets. -/
def grammarText (g : Grammar) (first follow : SymbolSets) : Except Fault GrammarText := do
  let otherNonTerminals ← namesOf g g.otherNonTerminals
  let terminals ← namesOf g g.terminals
  let start ← startName g
  let rules ← g.rules.zipIdx.mapM fun (r, i) => ruleLine g r i
  let firstSets ← (g.nonTerminals ++ g.terminals).mapM (setText g first)
  let followSets ← g.nonTerminals.mapM (setText g follow)
  let undefined ← namesOf g g.undefined
  return { otherNonTerminals := otherNonTerminals
           terminals := terminals
           start := start
           rules := rules
           firstSets := firstSets
           followSets := followSets
           undefined := undefined }

/-! ### Tables -/

/-- The rule with this number as it stands in a cell. -/
def ruleCell (g : Grammar) (i : Nat) : Except Fault String := do
  let r ← read g.rules i
  let left ← nameOf g r.left
  let right ← phrase g r.shown
  return left ++ "→" ++ right

/-- The rules of a cell; a dash where there are none. -/
def cellText (g : Grammar) (rules : List Nat) : Except Fault String :=
  if rules.isEmpty then return "-"
  else do
    let texts ← rules.mapM (ruleCell g)
    return " / ".intercalate texts

/-- A row of the LL(1) table as text. -/
def tableRow (g : Grammar) (t : Table) (x : Symbol) : Except Fault (String × List String) := do
  let cells ← t.columns.mapM fun u => do
    let rules ← rulesAt t x u
    cellText g rules
  let name ← nameOf g x
  return (name, cells)

/-- The LL(1) table as text. -/
def tableText (g : Grammar) (t : Table) : Except Fault TableText := do
  let rows ← t.rows.mapM (tableRow g t)
  let header ← namesOf g t.columns
  return { header := header, rows := rows }

/-- A row of the advice table as text. -/
def recoveryRow (g : Grammar) (t : Recovery) (x : Symbol) :
    Except Fault (String × List String) := do
  let cells ← rowOf t x
  let name ← nameOf g x
  return (name, (cells.getD []).map Advice.label)

/-- The advice table as text. -/
def recoveryText (g : Grammar) (t : Recovery) : Except Fault TableText := do
  let rows ← t.rows.mapM (recoveryRow g t)
  let header ← namesOf g t.columns
  return { header := header, rows := rows }

/-- A table in aligned columns. -/
def tablePlain (t : TableText) : Except Fault String := align t.cells

/-! ### Conflicts -/

/-- The names and texts of a conflict. -/
def conflictText (g : Grammar) (c : Conflict) : Except Fault ConflictText := do
  let nonTerminal ← nameOf g c.nonTerminal
  let terminal ← nameOf g c.lookahead
  let rules ← c.rules.mapM (ruleTextAt g)
  return { nonTerminal := nonTerminal, terminal := terminal, rules := rules }

/-- The conflicts of a table as text. -/
def conflictTexts (g : Grammar) (t : Table) : Except Fault (List ConflictText) := do
  let found ← conflicts t
  found.mapM (conflictText g)

/-! ### Traces -/

/-- The text of an action. -/
def actionText (g : Grammar) : Action → Except Fault String
  | .expand rule => ruleTextAt g rule
  | .advance terminal => do
    let name ← nameOf g terminal
    return "match " ++ name

/-- A step in names. -/
def stepText (g : Grammar) (t : Trace) (s : Step) : Except Fault StepText := do
  let stack ← phrase g s.stack.reverse
  let remaining ← readFrom t.tokens s.position
  let rule ← actionText g s.action
  return { stack := stack, input := " ".intercalate remaining, rule := rule }

/-- The text of a status. -/
def statusText (g : Grammar) : Status → Except Fault String
  | .finished .accepted => return "accepted"
  | .finished (.rejected (.noRule x token)) => do
    let name ← nameOf g x
    return "no rule for " ++ name ++ " on '" ++ token ++ "'"
  | .finished (.rejected (.mismatch x token)) => do
    let name ← nameOf g x
    return "expected '" ++ name ++ "' but found '" ++ token ++ "'"
  | .finished (.rejected (.unexpected x)) => do
    let name ← nameOf g x
    return "unexpected '" ++ name ++ "' on the stack"
  | .gaveUp limit => return "gave up after " ++ toString limit ++ " steps"

/-- A trace in names. -/
def traceText (g : Grammar) (t : Trace) : Except Fault TraceText := do
  let steps ← t.steps.mapM (stepText g t)
  let status ← statusText g t.status
  return { accepted := t.accepted, status := status, steps := steps }

/-- A trace in aligned columns. -/
def tracePlain (t : TraceText) : Except Fault String := do
  let steps ← align
    (["Stack", "Input", "Rule"] :: t.steps.map fun s => [s.stack, s.input, s.rule])
  return steps ++ "\n\n" ++ (if t.accepted then "Accepted" else "Rejected") ++
    " (" ++ t.status ++ ")"

/-! ### Log records -/

/-- The warning about a non-terminal without rules. -/
def undefinedSymbol (g : Grammar) (x : Symbol) : Except Fault Log.Record := do
  let name ← nameOf g x
  return ⟨.warn, .analysis, name ++ " is used but has no rule"⟩

/-- The warning about a conflict. -/
def conflictRecord (g : Grammar) (c : Conflict) : Except Fault Log.Record := do
  let text ← conflictText g c
  return ⟨.warn, .table, "LL(1) conflict in " ++ text.nonTerminal ++ " for terminal " ++
    text.terminal ++ ": " ++ Text.Quoted.list text.rules⟩

/-- The records of an analysis. -/
def logOfAnalysis (a : Analysis) : Except Fault (List Log.Record) := do
  let undefined ← a.grammar.undefined.mapM (undefinedSymbol a.grammar)
  let found ← conflicts a.table
  let conflicts ← found.mapM (conflictRecord a.grammar)
  return a.skipped.map Log.skippedLine ++ undefined ++
    [Log.convergence "FIRST" a.firstSweeps, Log.convergence "FOLLOW" a.followSweeps,
      Log.tableSize a.table] ++ conflicts

/-- The record of a step. -/
def stepRecord (g : Grammar) (t : Trace) (s : Step) : Except Fault Log.Record := do
  let stack ← phrase g s.stack.reverse
  let remaining ← readFrom t.tokens s.position
  return ⟨.trace, .machine, "stack [" ++ stack ++ "] input [" ++ " ".intercalate remaining ++
    "] " ++ Log.actionLabel s.action⟩

/-- The records of a parse. -/
def logOfTrace (g : Grammar) (t : Trace) : Except Fault (List Log.Record) :=
  t.steps.mapM (stepRecord g t)

end Predictive.Checked
