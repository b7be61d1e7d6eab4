-- What a command prints and how it ends. The standard input and the files
-- are handed in, so a command is a function of what it reads.
import Stepwise.Catalog
import Stepwise.CommandLine.Arguments
import Stepwise.CommandLine.Files
import Stepwise.Description
import Stepwise.Diagnostic
import Stepwise.Report

namespace Stepwise.CommandLine

open Terminal

/-! ## Reading -/

/-- What a command can read. -/
structure Sources where
  stdin : String
  file : String → Except ReadFailure String

/-- The name that stands for the standard input. -/
def stdinName : String := "-"

def Sources.read (s : Sources) (path : String) : Except ReadFailure String :=
  if path = stdinName then .ok s.stdin else s.file path

/-! ## Automata -/

inductive LoadError where
  | unknownKind (e : UnknownKind)
  | unknownExample (name : String)
  | missingAutomaton
  | unreadable (path : String) (failure : ReadFailure)
  | description (e : Description.Error)
  deriving DecidableEq

def LoadError.message : LoadError → String
  | unknownKind e => e.message
  | unknownExample name =>
    "there is no example called \"" ++ name ++ "\", try \x60fasim examples\x60"
  | missingAutomaton =>
    "either --example or --states together with --transitions has to be given"
  | unreadable path failure => "could not read " ++ path ++ ": " ++ failure.reason
  | description e => e.message

namespace Definition

/-- The kind, a DFA unless another one is given. -/
def kindOf (d : Definition) : Except UnknownKind Kind := Kind.parse (d.kind.getD "dfa")

/-- The description that the parts make. Without an initial state it is the
first one of the states. -/
def describe (d : Definition) (states transitions : String) : Description where
  states := states
  alphabet := d.alphabet.getD "0, 1"
  initialState := d.initial.getD ((Text.parseList states).headD "")
  acceptingStates := d.accepting.getD ""
  transitions := transitions

/-- An example keeps its own kind unless one is given. -/
def loadExample (d : Definition) (kind : Kind) (name : String) : Except LoadError Automaton :=
  match Catalog.find? name with
  | none => .error (.unknownExample name)
  | some a => .ok (if d.kind.isSome then a.withKind kind else a)

def loadParts (d : Definition) (kind : Kind) (sources : Sources) :
    Except LoadError Description.Decoded :=
  match d.states, d.transitions with
  | some states, some path =>
    match sources.read path with
    | .error failure => .error (.unreadable path failure)
    | .ok text =>
      match (d.describe states text).decode kind with
      | .error e => .error (.description e)
      | .ok decoded => .ok decoded
  | _, _ => .error .missingAutomaton

/-- The automaton that is meant, and what was left out of its description. -/
def load (d : Definition) (sources : Sources) : Except LoadError Description.Decoded :=
  match d.kindOf with
  | .error e => .error (.unknownKind e)
  | .ok kind =>
    match d.builtin with
    | some name => (d.loadExample kind name).map fun a => ⟨a, [], []⟩
    | none => d.loadParts kind sources

/-- Whether the transitions come from the standard input. -/
def usesStdin (d : Definition) : Bool := d.builtin.isNone && d.transitions == some stdinName

/-- The file that has to be read. -/
def file? (d : Definition) : Option String :=
  if d.builtin.isSome then none else d.transitions.filter (· ≠ stdinName)

end Definition

/-! ## Results -/

/-- What a command leaves behind: its exit code, its output and its
messages. -/
structure Outcome where
  exit : Nat
  stdout : String
  stderr : List String
  deriving DecidableEq, Inhabited

def errorTag : String := bold (red "error:")

def warningTag : String := bold (yellow "warning:")

def diagnosticLine (d : Diagnostic) : String :=
  (if d.isError then errorTag else warningTag) ++ " " ++ d.message

def printed (lines : List String) : String := String.join (lines.map fun line => line ++ "\n")

def Outcome.failed (e : LoadError) : Outcome := ⟨2, "", [errorTag ++ " " ++ e.message]⟩

/-! ## Commands -/

def exampleLine (named : String × Automaton) : String :=
  bold named.1 ++ " " ++ dimmed (brief named.2)

def validateAutomaton (a : Automaton) : Outcome :=
  let problems := a.validate
  if problems.any Diagnostic.isError then ⟨1, "", problems.map diagnosticLine⟩
  else ⟨0, printed [bold (green "valid")], problems.map diagnosticLine⟩

/-- The run on one input: its history, its paths if they are asked for, and
the verdict. -/
def runInput (a : Automaton) (input : String) (paths : Bool) : Outcome :=
  let history := (History.start a input.toList).play a
  let final := history.current
  let pathLines := if paths then (final.paths.getD []).map Path.text else []
  let verdict := bold (if final.accepted then green final.status else red final.status)
  ⟨if final.accepted then 0 else 1, printed (history.table :: pathLines ++ [verdict]),
   a.validate.map diagnosticLine⟩

def inputLines (text : String) : List String := (Text.lines text.toList).map String.ofList

/-- Goes on with the automaton that is meant, if it can be loaded. -/
def withAutomaton (d : Definition) (sources : Sources) (go : Automaton → Outcome) : Outcome :=
  match d.load sources with
  | .error e => .failed e
  | .ok decoded =>
    let outcome := go decoded.automaton
    { outcome with stderr := decoded.notes ++ outcome.stderr }

/-- What is left to read of the standard input once the automaton is loaded. -/
def restOfStdin (d : Definition) (sources : Sources) : String :=
  if d.usesStdin then "" else sources.stdin

def Command.execute (sources : Sources) : Command → Outcome
  | .examples => ⟨0, printed (Catalog.all.map exampleLine), []⟩
  | .table d => withAutomaton d sources fun a => ⟨0, printed [a.coloredTransitionTable], []⟩
  | .validate d => withAutomaton d sources validateAutomaton
  | .run d input paths => withAutomaton d sources fun a => runInput a input paths
  | .batch d => withAutomaton d sources fun a =>
    ⟨0, printed [resultsTable (a.runBatch (inputLines (restOfStdin d sources)))], []⟩

/-- The way an automaton is given to a command. -/
def Command.definition? : Command → Option Definition
  | .examples => none
  | .table d | .validate d | .run d _ _ | .batch d => some d

/-- Whether a command reads the standard input. -/
def Command.readsStdin (c : Command) : Bool :=
  match c with
  | .batch _ => true
  | _ => c.definition?.any Definition.usesStdin

end Stepwise.CommandLine
