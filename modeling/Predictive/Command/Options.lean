import Predictive.Log
import Predictive.Text.Pieces

/-! # Command-line arguments

    The arguments name the outputs to print, in order, and set options before,
    between or after them. A long option is written `--name value` or
    `--name=value`; short options can be joined, and one that takes a value
    takes the rest of its argument or else the next one (`-fjson`, `-f json`).
    After `--` every argument is an output.

    An option with a value can be given once. Asking for the version ends the
    reading: later arguments are not looked at.

    A page of help is not modelled. The program answers `-h` and `--help` with
    one and succeeds; in this model both are refused, as every option is that is
    not among those below, and the exit code is 2.
-/

namespace Predictive.Command

/-- What can be printed. -/
inductive Output where
  | info
  | table
  | recovery
  | conflicts
  | trace
  | tree
  deriving DecidableEq, Repr

/-- The output of this name. -/
def Output.ofName? (name : String) : Option Output :=
  [("info", info), ("table", table), ("recovery", recovery), ("conflicts", conflicts),
    ("trace", trace), ("tree", tree)].lookup name

/-- The form of the outputs. -/
inductive Format where
  | plain
  | json
  deriving DecidableEq, Repr

/-- The format of this name. -/
def Format.ofName? (name : String) : Option Format :=
  [("plain", plain), ("json", json)].lookup name

/-- The options that take a value. -/
inductive Setting where
  | grammar
  | input
  | format
  | maxSteps
  deriving DecidableEq, Repr

namespace Setting

/-- The long name. -/
def name : Setting → String
  | grammar => "grammar"
  | input => "input"
  | format => "format"
  | maxSteps => "max-steps"

/-- The setting with this long name. -/
def ofName? (text : String) : Option Setting :=
  [grammar, input, format, maxSteps].find? (·.name = text)

/-- The setting with this letter. -/
def ofLetter? (c : Char) : Option Setting :=
  [('g', grammar), ('i', input), ('f', format)].lookup c

end Setting

/-- Why the arguments cannot be used. -/
inductive UsageError where
  | noOutput
  | unknownArgument (argument : String)
  | missingValue (setting : Setting)
  | repeatedSetting (setting : Setting)
  | invalidValue (setting : Setting) (value : String)
  deriving DecidableEq, Repr

/-- The message for arguments that cannot be used. -/
def UsageError.message : UsageError → String
  | noOutput => "no output is named"
  | unknownArgument argument => "unexpected argument '" ++ argument ++ "'"
  | missingValue setting => "a value is required for '--" ++ setting.name ++ "'"
  | repeatedSetting setting => "'--" ++ setting.name ++ "' is given twice"
  | invalidValue setting value => "invalid value '" ++ value ++ "' for '--" ++ setting.name ++ "'"

/-- What a run is asked to do. -/
structure Options where
  outputs : List Output
  /-- The file to read the grammar from; the standard input if there is none. -/
  grammar : Option String
  /-- The input to parse. -/
  input : String
  format : Format
  /-- The limit of steps for the parse. -/
  maxSteps : Option Nat
  /-- How often more logging was asked for. -/
  verbosity : Nat
  deriving DecidableEq, Repr

/-- The log threshold: warnings, or more if asked for; a threshold from
    outside is preferred. -/
def Options.threshold (o : Options) (preferred : Option Log.Threshold) : Log.Threshold :=
  preferred.getD <| some <|
    match o.verbosity with
    | 0 => .warn
    | 1 => .debug
    | _ => .trace

/-- What the arguments ask for. -/
inductive Request where
  | version
  | run (options : Options)
  deriving DecidableEq, Repr

/-- The largest limit of steps that can be given: all 64-bit numbers are limits. -/
def largestLimit : Nat := 18446744073709551615

/-- A limit of steps: decimal digits, perhaps after a plus sign. -/
def limit? (value : String) : Option Nat :=
  let digits := match value.toList with
    | '+' :: digits => digits
    | digits => digits
  let n := digits.foldl (fun n c => 10 * n + (c.toNat - '0'.toNat)) 0
  if digits.isEmpty || !digits.all Char.isDigit || n > largestLimit then none else some n

/-- Options while the arguments are read: what has been given so far, the
    setting whose value is the next argument, and whether `--` was met. -/
structure Draft where
  outputs : List Output
  grammar : Option String
  input : Option String
  format : Option Format
  maxSteps : Option Nat
  verbosity : Nat
  awaiting : Option Setting
  outputsOnly : Bool
  deriving DecidableEq, Repr

namespace Draft

/-- Nothing has been given. -/
def empty : Draft :=
  { outputs := [], grammar := none, input := none, format := none, maxSteps := none,
    verbosity := 0, awaiting := none, outputsOnly := false }

/-- Takes an argument as an output. -/
def addOutput (d : Draft) (argument : String) : Except UsageError Draft :=
  match Output.ofName? argument with
  | some output => .ok { d with outputs := d.outputs ++ [output] }
  | none => .error (.unknownArgument argument)

/-- The setting has a value already. -/
def has (d : Draft) : Setting → Bool
  | .grammar => d.grammar.isSome
  | .input => d.input.isSome
  | .format => d.format.isSome
  | .maxSteps => d.maxSteps.isSome

/-- Gives a setting its value. -/
def set (d : Draft) (setting : Setting) (value : String) : Except UsageError Draft :=
  let d := { d with awaiting := none }
  if d.has setting then .error (.repeatedSetting setting)
  else match setting with
    | .grammar =>
      if value.isEmpty then .error (.invalidValue .grammar value)
      else .ok { d with grammar := some value }
    | .input => .ok { d with input := some value }
    | .format =>
      match Format.ofName? value with
      | some format => .ok { d with format := some format }
      | none => .error (.invalidValue .format value)
    | .maxSteps =>
      match limit? value with
      | some limit => .ok { d with maxSteps := some limit }
      | none => .error (.invalidValue .maxSteps value)

/-- The options, if any output was given. -/
def finish (d : Draft) : Except UsageError Options :=
  match d.awaiting with
  | some setting => .error (.missingValue setting)
  | none =>
    if d.outputs.isEmpty then .error .noOutput
    else .ok
      { outputs := d.outputs
        grammar := d.grammar
        input := d.input.getD ""
        format := d.format.getD .plain
        maxSteps := d.maxSteps
        verbosity := d.verbosity }

/-- Reads joined short options. Nothing comes back when the version is asked
    for. -/
def readLetters (d : Draft) : List Char → Except UsageError (Option Draft)
  | [] => .ok (some d)
  | 'v' :: rest => { d with verbosity := d.verbosity + 1 }.readLetters rest
  | 'V' :: _ => .ok none
  | c :: rest =>
    match Setting.ofLetter? c, rest with
    | none, _ => .error (.unknownArgument (String.ofList (c :: rest)))
    | some setting, [] => .ok (some { d with awaiting := some setting })
    | some setting, '=' :: value => (d.set setting (String.ofList value)).map some
    | some setting, value => (d.set setting (String.ofList value)).map some

/-- Reads a long option without its two dashes. Nothing comes back when the
    version is asked for. -/
def readLong (d : Draft) (argument : List Char) : Except UsageError (Option Draft) :=
  match Text.splitAround? ['='] argument with
  | some (name, value) =>
    match Setting.ofName? (String.ofList name) with
    | some setting => (d.set setting (String.ofList value)).map some
    | none => .error (.unknownArgument (String.ofList argument))
  | none =>
    match Setting.ofName? (String.ofList argument) with
    | some setting => .ok (some { d with awaiting := some setting })
    | none =>
      if argument = "verbose".toList then .ok (some { d with verbosity := d.verbosity + 1 })
      else if argument = "version".toList then .ok none
      else .error (.unknownArgument (String.ofList argument))

/-- Reads one argument. Nothing comes back when the version is asked for. -/
def read (d : Draft) (argument : String) : Except UsageError (Option Draft) :=
  if d.outputsOnly then (d.addOutput argument).map some
  else match argument.toList, d.awaiting with
    | '-' :: _ :: _, some setting => .error (.missingValue setting)
    | _, some setting => (d.set setting argument).map some
    | ['-', '-'], none => .ok (some { d with outputsOnly := true })
    | '-' :: '-' :: name, none => d.readLong name
    | '-' :: c :: letters, none => d.readLetters (c :: letters)
    | _, none => (d.addOutput argument).map some

/-- Reads the arguments in order. -/
def readAll (d : Draft) : List String → Except UsageError Request
  | [] => d.finish.map .run
  | argument :: arguments =>
    match d.read argument with
    | .error e => .error e
    | .ok none => .ok .version
    | .ok (some d) => d.readAll arguments

end Draft

/-- What the arguments ask for. -/
def Request.ofArguments (arguments : List String) : Except UsageError Request :=
  Draft.empty.readAll arguments

end Predictive.Command
