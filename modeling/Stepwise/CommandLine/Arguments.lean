-- The arguments of the command line. Options may stand anywhere after the
-- command, each at most once, as two dashes with a name or one dash with a
-- letter, and a lone pair of dashes makes everything after it an input.

namespace Stepwise.CommandLine

/-! ## Commands -/

/-- How an automaton is given: by the name of an example or by its parts. -/
structure Definition where
  builtin : Option String
  kind : Option String
  states : Option String
  alphabet : Option String
  initial : Option String
  accepting : Option String
  /-- The file with the transitions, a dash for the standard input. -/
  transitions : Option String
  deriving DecidableEq, Inhabited

inductive Command where
  | examples
  | table (d : Definition)
  | validate (d : Definition)
  | run (d : Definition) (input : String) (paths : Bool)
  | batch (d : Definition)
  deriving DecidableEq

/-- Why arguments give no command. -/
inductive Refusal where
  /-- They are wrong. -/
  | usage
  /-- They ask how to use the program. -/
  | help
  deriving DecidableEq

/-! ## Options -/

inductive Flag where
  | builtin
  | kind
  | states
  | alphabet
  | initial
  | accepting
  | transitions
  | paths
  deriving DecidableEq

namespace Flag

def long : Flag → String
  | builtin => "example"
  | kind => "kind"
  | states => "states"
  | alphabet => "alphabet"
  | initial => "initial"
  | accepting => "accepting"
  | transitions => "transitions"
  | paths => "paths"

def short : Flag → Char
  | builtin => 'e'
  | kind => 'k'
  | states => 's'
  | alphabet => 'a'
  | initial => 'i'
  | accepting => 'f'
  | transitions => 't'
  | paths => 'p'

def takesValue : Flag → Bool
  | paths => false
  | _ => true

/-- The options that say which automaton is meant. -/
def ofDefinition : List Flag :=
  [builtin, kind, states, alphabet, initial, accepting, transitions]

end Flag

/-- What was read so far. -/
structure Given where
  flags : List (Flag × String)
  inputs : List String
  deriving Inhabited

namespace Given

def addFlag (g : Given) (flag : Flag) (value : String) : Given :=
  { g with flags := g.flags ++ [(flag, value)] }

def addInputs (g : Given) (inputs : List String) : Given :=
  { g with inputs := g.inputs ++ inputs }

def has (g : Given) (flag : Flag) : Bool := g.flags.any fun p => p.1 = flag

def value? (g : Given) (flag : Flag) : Option String := g.flags.lookup flag

/-- No option stands twice, and an example is not mixed with parts. -/
def isConsistent (g : Given) : Bool :=
  decide (g.flags.map Prod.fst).Nodup
    && !(g.has .builtin && (g.has .states || g.has .transitions))

def definition (g : Given) : Definition where
  builtin := g.value? .builtin
  kind := g.value? .kind
  states := g.value? .states
  alphabet := g.value? .alphabet
  initial := g.value? .initial
  accepting := g.value? .accepting
  transitions := g.value? .transitions

end Given

/-! ## Reading one argument -/

/-- What stands before the first equals sign, and after it if there is one. -/
def cutAtEquals (cs : List Char) : List Char × Option (List Char) :=
  match cs.dropWhile (· ≠ '=') with
  | [] => (cs, none)
  | _ :: value => (cs.takeWhile (· ≠ '='), some value)

/-- An argument by its form. -/
inductive Form where
  | separator
  | long (name : List Char) (value : Option (List Char))
  | short (letters : List Char)
  | plain

/-- A dash alone is no option. -/
def form : List Char → Form
  | ['-', '-'] => .separator
  | '-' :: '-' :: rest =>
    let p := cutAtEquals rest
    .long p.1 p.2
  | '-' :: c :: rest => .short (c :: rest)
  | _ => .plain

def isPlain (arg : String) : Bool :=
  match form arg.toList with
  | .plain => true
  | _ => false

/-- Options that are read from one argument. The last of them may still lack
its value. -/
structure Cluster where
  complete : List (Flag × String)
  pending : Option Flag

/-- Reads letters after one dash. An option with a value takes what follows it. -/
def readLetters (allowed : List Flag) : List Char → Except Refusal Cluster
  | [] => .ok ⟨[], none⟩
  | c :: rest =>
    match allowed.find? fun flag => flag.short = c with
    | none => .error (if c = 'h' then .help else .usage)
    | some flag =>
      if flag.takesValue then
        match rest with
        | [] => .ok ⟨[], some flag⟩
        | '=' :: value => .ok ⟨[(flag, String.ofList value)], none⟩
        | value => .ok ⟨[(flag, String.ofList value)], none⟩
      else
        match readLetters allowed rest with
        | .error e => .error e
        | .ok more => .ok { more with complete := (flag, "") :: more.complete }

/-- Reads a name after two dashes. -/
def readName (allowed : List Flag) (name : List Char) (value : Option (List Char)) :
    Except Refusal Cluster :=
  match allowed.find? fun flag => flag.long.toList = name with
  | none =>
    .error (if String.ofList name = "help" ∧ value = none then .help else .usage)
  | some flag =>
    match flag.takesValue, value with
    | true, some value => .ok ⟨[(flag, String.ofList value)], none⟩
    | true, none => .ok ⟨[], some flag⟩
    | false, none => .ok ⟨[(flag, "")], none⟩
    | false, some _ => .error .usage

/-! ## Reading all arguments -/

/-- Reads the arguments of a command. A value that an option still lacks is
the next argument, unless that is an option itself. -/
def readArguments (allowed : List Flag) : Given → Option Flag → List String → Except Refusal Given
  | g, none, [] => .ok g
  | _, some _, [] => .error .usage
  | g, some flag, arg :: rest =>
    if isPlain arg then readArguments allowed (g.addFlag flag arg) none rest else .error .usage
  | g, none, arg :: rest =>
    let take (cluster : Except Refusal Cluster) : Except Refusal (Given × Option Flag) :=
      cluster.map fun c => (c.complete.foldl (fun g p => g.addFlag p.1 p.2) g, c.pending)
    match form arg.toList with
    | .separator => .ok (g.addInputs rest)
    | .plain => readArguments allowed (g.addInputs [arg]) none rest
    | .long name value =>
      match take (readName allowed name value) with
      | .error e => .error e
      | .ok (g, pending) => readArguments allowed g pending rest
    | .short letters =>
      match take (readLetters allowed letters) with
      | .error e => .error e
      | .ok (g, pending) => readArguments allowed g pending rest

def readGiven (allowed : List Flag) (args : List String) : Except Refusal Given :=
  match readArguments allowed default none args with
  | .error e => .error e
  | .ok g => if g.isConsistent then .ok g else .error .usage

/-- A command that takes no input of its own. -/
def readPlain (make : Definition → Command) (args : List String) : Except Refusal Command :=
  match readGiven Flag.ofDefinition args with
  | .error e => .error e
  | .ok g => if g.inputs.isEmpty then .ok (make g.definition) else .error .usage

def readExamples (args : List String) : Except Refusal Command :=
  match readGiven [] args with
  | .error e => .error e
  | .ok g => if g.inputs.isEmpty then .ok .examples else .error .usage

def readRun (args : List String) : Except Refusal Command :=
  match readGiven (Flag.ofDefinition ++ [.paths]) args with
  | .error e => .error e
  | .ok g =>
    match g.inputs with
    | [input] => .ok (.run g.definition input (g.has .paths))
    | _ => .error .usage

/-- How to read each command. -/
def commands : List (String × (List String → Except Refusal Command)) :=
  [("examples", readExamples), ("table", readPlain .table), ("validate", readPlain .validate),
   ("run", readRun), ("batch", readPlain .batch)]

/-- Asks how to use the program or one of its commands. -/
def readHelp : List String → Refusal
  | [] => .help
  | [topic] => if topic = "help" ∨ (commands.lookup topic).isSome then .help else .usage
  | _ => .usage

def verbosities : List String := ["info", "debug", "trace"]

/-- An option before the command says how much is logged. Its value only
comes with an equals sign. -/
def readVerbosity (arg : String) : Except Refusal Unit :=
  let check : Option (List Char) → Except Refusal Unit
    | none => .ok ()
    | some level => if String.ofList level ∈ verbosities then .ok () else .error .usage
  match form arg.toList with
  | .long name value =>
    if String.ofList name = "verbosity" then check value
    else .error (if String.ofList name = "help" ∧ value = none then .help else .usage)
  | .short ['v'] => check none
  | .short ('v' :: '=' :: level) => check (some level)
  | .short ('h' :: _) => .error .help
  | .short ('v' :: 'h' :: _) => .error .help
  | _ => .error .usage

def readCommand : List String → Except Refusal Command
  | [] => .error .usage
  | name :: args =>
    if name = "help" then .error (readHelp args)
    else match commands.lookup name with
      | some readRest => readRest args
      | none => .error .usage

/-- Reads all arguments of the program. -/
def parse : List String → Except Refusal Command
  | [] => .error .usage
  | arg :: rest =>
    if isPlain arg then readCommand (arg :: rest)
    else match readVerbosity arg with
      | .error e => .error e
      | .ok () =>
        match rest with
        | next :: _ => if isPlain next then readCommand rest else
          match readVerbosity next with
          | .error .help => .error .help
          | _ => .error .usage
        | [] => .error .usage

end Stepwise.CommandLine
