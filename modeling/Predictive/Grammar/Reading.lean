import Predictive.Grammar.Basic
import Predictive.Phrase

/-! # Reading a grammar

    A grammar text has one rule per line, `A -> x B | ε`. An arrow is written
    `->` or `→`; the right side is a list of alternatives with bars between
    them, and each alternative is a phrase.

    Reading never fails: blank lines are passed over, and a line that is no
    rule is skipped and reported.
-/

namespace Predictive

/-- Why a line is no rule. -/
inductive SkipReason where
  | missingArrow
  | emptyLeftSide
  | blankInLeftSide
  | reservedLeftSide (name : String)
  deriving DecidableEq, Repr

/-- The text of a reason. -/
def SkipReason.message : SkipReason → String
  | missingArrow => "no \"->\" or \"→\" separator"
  | emptyLeftSide => "empty left side"
  | blankInLeftSide => "left side contains whitespace"
  | reservedLeftSide name => "left side is the reserved symbol " ++ name

/-- A line that is no rule: its number, counted from one, and its text
    without the blanks at its ends. -/
structure SkippedLine where
  line : Nat
  content : String
  reason : SkipReason
  deriving DecidableEq, Repr

/-- The text that reports a skipped line. -/
def SkippedLine.message (s : SkippedLine) : String :=
  "line " ++ toString s.line ++ ": " ++ s.reason.message ++ ": '" ++ s.content ++ "'"

/-- A line that is a rule: what it defines, and the alternatives as names. -/
structure RuleLine where
  left : String
  alternatives : List (List String)
  deriving DecidableEq, Repr

namespace RuleLine

/-- The arrows, the preferred spelling first. -/
def arrows : List (List Char) := [['-', '>'], ['→']]

/-- The two sides of a line. A line with both spellings is cut at the first
    `->`, wherever the other one stands. -/
def sides? (line : List Char) : Option (List Char × List Char) :=
  arrows.findSome? (Text.splitAround? · line)

/-- The name on the left side. -/
def leftSide (cs : List Char) : Except SkipReason String :=
  let left := Text.trim cs
  let name := String.ofList left
  if left.isEmpty then .error .emptyLeftSide
  else if left.any Text.isBlank then .error .blankInLeftSide
  else if name = Symbol.epsilonName ∨ name = Symbol.endMarkName then
    .error (.reservedLeftSide name)
  else .ok name

/-- A line read as a rule. -/
def read (line : List Char) : Except SkipReason RuleLine := do
  let some (before, after) := sides? line | .error .missingArrow
  let left ← leftSide before
  return ⟨left, (Text.splitWhere (· == '|') after).map Phrase.names⟩

/-- One production for each alternative. -/
def productions (r : RuleLine) : List Production := r.alternatives.map (⟨r.left, ·⟩)

end RuleLine

/-- What a grammar text says: its grammar and the lines that are no rules. -/
structure Reading where
  grammar : Grammar
  skipped : List SkippedLine
  deriving DecidableEq, Repr

namespace Reading

/-- The `i`-th line, counted from zero, unless it is blank. -/
def line? (i : Nat) (line : List Char) : Option (Except SkippedLine RuleLine) :=
  let content := Text.trim line
  if content.isEmpty then none
  else some <| (RuleLine.read content).mapError (⟨i + 1, String.ofList content, ·⟩)

/-- The lines of a text that are not blank, read one by one. -/
def lines (text : List Char) : List (Except SkippedLine RuleLine) :=
  (Text.splitWhere (· == '\n') text).zipIdx.filterMap fun (line, i) => line? i line

/-- The skipped line, if it is one. -/
def skipped? : Except SkippedLine RuleLine → Option SkippedLine
  | .error s => some s
  | .ok _ => none

/-- The productions of a text in order. -/
def productions (text : List Char) : List Production :=
  ((lines text).filterMap Except.toOption).flatMap RuleLine.productions

/-- Reads a grammar text. -/
def ofText (text : String) : Reading :=
  { grammar := .ofProductions (productions text.toList)
    skipped := (lines text.toList).filterMap skipped? }

end Reading

example : (Reading.ofText "S -> a S | ε\n\nno rule\n").grammar.rules
    = [⟨2, [3, 2]⟩, ⟨2, []⟩] := by decide

example : (Reading.ofText "S -> a S | ε\n\nno rule\n").skipped.map SkippedLine.message
    = ["line 3: no \"->\" or \"→\" separator: 'no rule'"] := by decide

end Predictive
