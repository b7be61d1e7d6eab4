-- The program: reads its arguments, the standard input and a file where the
-- command needs them, and prints what the command leaves behind.
import Stepwise.CommandLine.Execution

namespace Stepwise.CommandLine

def usageText : String :=
  "Finite automata simulation\n\nUsage: [-v[=info|debug|trace]] <command> <options>\n\n"
    ++ "Commands:\n"
    ++ "  examples   lists the built-in example automata\n"
    ++ "  table      prints the transition table of an automaton\n"
    ++ "  validate   checks an automaton for structural problems\n"
    ++ "  run        steps through the run on a single input\n"
    ++ "  batch      reads one input per line from stdin and reports which are accepted\n\n"
    ++ "Options of all commands but examples:\n"
    ++ "  -e, --example      use one of the built-in examples\n"
    ++ "  -k, --kind         DFA or NFA [default: dfa]\n"
    ++ "  -s, --states       comma separated states\n"
    ++ "  -a, --alphabet     comma separated symbols [default: 0, 1]\n"
    ++ "  -i, --initial      the initial state, defaults to the first state\n"
    ++ "  -f, --accepting    comma separated accepting states\n"
    ++ "  -t, --transitions  file with one transition per line, - for stdin\n"
    ++ "  -p, --paths        print the computation paths of an NFA (run only)\n"

def readFailure : IO.Error → ReadFailure
  | .noFileOrDirectory .. => .missing
  | .permissionDenied .. => .denied
  | .inappropriateType _ code _ => if code = 20 then .notDirectory else .directory
  | e => .other (toString e)

def readFile (path : String) : IO (Except ReadFailure String) := do
  try
    return .ok (← IO.FS.readFile path)
  catch e =>
    return .error (readFailure e)

def runProgram (args : List String) : IO UInt32 := do
  match parse args with
  | .error .help =>
    IO.print usageText
    return 0
  | .error .usage =>
    IO.eprint usageText
    return 2
  | .ok command =>
    let stdin ← if command.readsStdin then (← IO.getStdin).readToEnd else pure ""
    let content ← match command.definition?.bind Definition.file? with
      | some path => readFile path
      | none => pure (.error .missing)
    let outcome := command.execute ⟨stdin, fun _ => content⟩
    for line in outcome.stderr do
      IO.eprintln line
    IO.print outcome.stdout
    return outcome.exit.toUInt32

end Stepwise.CommandLine

def main (args : List String) : IO UInt32 := Stepwise.CommandLine.runProgram args
