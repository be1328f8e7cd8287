import Predictive.Command.Options
import Predictive.Report.Export

/-! # A run of the command

    A run reads a grammar, prints the outputs that were asked for, one after
    the other, and fails if the grammar cannot be read or if a parse gave up
    at its limit. What was printed before a failure stays.
-/

namespace Predictive.Command

/-- Why a grammar cannot be read. -/
inductive ReadFailure where
  | notFound
  | notDirectory
  | isDirectory
  | nameTooLong
  | notUtf8
  | other (message : String)
  deriving DecidableEq, Repr

/-- The text of a failure to read. -/
def ReadFailure.message : ReadFailure → String
  | notFound => "No such file or directory (os error 2)"
  | notDirectory => "Not a directory (os error 20)"
  | isDirectory => "Is a directory (os error 21)"
  | nameTooLong => "File name too long (os error 36)"
  | notUtf8 => "stream did not contain valid UTF-8"
  | other message => message

/-- The text of a grammar, given as bytes. -/
def decode (bytes : ByteArray) : Except ReadFailure String :=
  match String.fromUTF8? bytes with
  | some text => .ok text
  | none => .error .notUtf8

/-- Why a run fails. -/
inductive Failure where
  | unreadable (reason : ReadFailure)
  | unfinished (limit : Nat)
  deriving DecidableEq, Repr

/-- The text of a failure. -/
def Failure.message : Failure → String
  | unreadable reason => "failed to read grammar: " ++ reason.message
  | unfinished limit => "parse did not finish within " ++ toString limit ++ " steps"

/-- What a run leaves: its output, its failure, and the records of its log
    before the failure. -/
structure Outcome where
  stdout : String
  failure : Option Failure
  records : List Log.Record
  deriving DecidableEq, Repr

namespace Outcome

/-- Zero for success. -/
def exitCode (o : Outcome) : Nat := if o.failure.isSome then 1 else 0

/-- All records; a failure is the last one. -/
def log (o : Outcome) : List Log.Record :=
  o.records ++ o.failure.toList.map fun f => ⟨.error, .program, f.message⟩

end Outcome

/-- The log as it is written: the records that the threshold keeps, in plain
    text. A threshold from outside is preferred. -/
def Options.log (o : Options) (preferred : Option Log.Threshold) (outcome : Outcome) :
    List Log.Record :=
  ((o.threshold preferred).keep outcome.log).map Log.Record.plain

/-- The output needs a parse. -/
def Output.needsTrace : Output → Bool
  | trace | tree => true
  | info | table | recovery | conflicts => false

/-- The plain form or the JSON form. -/
def Format.choose (f : Format) (plainForm : String) (jsonForm : Json) : String :=
  match f with
  | plain => plainForm
  | json => jsonForm.compact

/-- The text of an output. The tree has no plain form. Without a parse there
    is nothing to show of it. -/
def Output.text? (f : Format) (a : Analysis) (t : Option Trace) : Output → Option String
  | info => some (f.choose a.grammarText.plain a.grammarText.json)
  | table => some (f.choose a.tableText.plain a.tableText.json)
  | recovery => some (f.choose a.recoveryText.plain a.recoveryText.json)
  | conflicts =>
    some (f.choose (ConflictText.plainList a.conflictTexts) (ConflictText.jsonList a.conflictTexts))
  | trace => t.map fun t =>
    let text := a.grammar.traceText t
    f.choose text.plain text.json
  | tree => t.map fun t => (a.grammar.treeJson t).compact

/-- The texts of all outputs, each with a line end. -/
def Options.printed (o : Options) (a : Analysis) (t : Option Trace) : String :=
  String.join ((o.outputs.filterMap (·.text? o.format a t)).map (· ++ "\n"))

/-- The failure of a parse that gave up. -/
def failureOf? (t : Trace) : Option Failure :=
  match t.status with
  | .gaveUp limit => some (.unfinished limit)
  | .finished _ => none

/-- What is left after an analysis and, if one was needed, a parse. -/
def Options.outcome (o : Options) (a : Analysis) (t : Option Trace) : Outcome :=
  { stdout := o.printed a t
    failure := t.bind failureOf?
    records := Log.ofAnalysis a ++ (t.map (Log.ofTrace a.grammar)).getD [] }

/-- A run on a grammar text that was read, or could not be. A parse without a
    limit makes at most `fuel` steps; nothing comes back if that is too few. -/
def Options.run? (o : Options) (source : Except ReadFailure String) (fuel : Nat) :
    Option Outcome :=
  match source with
  | .error reason => some { stdout := "", failure := some (.unreadable reason), records := [] }
  | .ok text =>
    let a := Analysis.ofText text
    if o.outputs.any Output.needsTrace then
      (a.parse o.input o.maxSteps fuel).map fun t => o.outcome a (some t)
    else some (o.outcome a none)

/-- The answer to a question for the version. -/
def versionText : String := "ll1-analyzer 0.1.0\n"

end Predictive.Command
