import Predictive.Command.Run

/-! # The program

    Reads the arguments and the grammar, runs the command, prints its output
    and its log, and ends with its exit code.
-/

namespace Predictive.Command

/-- The code of the error that a path, or a name in it, is too long. -/
def nameTooLongCode : UInt32 := 0 - 36

/-- Reads a file, or the standard input if none is named. -/
def readSource (path : Option String) : IO (Except ReadFailure String) := do
  try
    let bytes ← match path with
      | some path => IO.FS.readBinFile path
      | none => (← IO.getStdin).readBinToEnd
    return decode bytes
  catch e =>
    return .error <| match e with
      | .noFileOrDirectory .. => .notFound
      -- a path through a file cannot be opened; a directory can, but not read
      | .inappropriateType (some _) .. => .notDirectory
      | .inappropriateType none .. => .isDirectory
      | e@(.invalidArgument _ code _) =>
        if code = nameTooLongCode then .nameTooLong else .other (toString e)
      | e => .other (toString e)

/-- Runs with more and more fuel until the parse is over. -/
partial def runToEnd (o : Options) (source : Except ReadFailure String) (fuel : Nat) :
    IO Outcome :=
  match o.run? source fuel with
  | some outcome => return outcome
  | none => runToEnd o source (2 * fuel)

end Predictive.Command

open Predictive Predictive.Command in
/-- The command line. The environment variable `RUST_LOG` names a threshold
    for the log. -/
def main (arguments : List String) : IO UInt32 := do
  match Request.ofArguments arguments with
  | .error e =>
    IO.eprintln e.message
    return 2
  | .ok .version =>
    IO.print versionText
    return 0
  | .ok (.run o) =>
    let preferred := (← IO.getEnv "RUST_LOG").bind Log.Threshold.ofName?
    let outcome ← runToEnd o (← readSource o.grammar) 1024
    IO.print outcome.stdout
    for r in o.log preferred outcome do
      IO.eprintln r.line
    return outcome.exitCode.toUInt32
