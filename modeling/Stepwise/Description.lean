-- An automaton described by five texts, as a conversion service sends it: lists with
-- commas between, and one transition a line. A state that a subset construction made is
-- written as a frozenset of what it was made from, and several destinations at once as a
-- set literal.
import Stepwise.Automaton
import Stepwise.TransitionText

namespace Stepwise.Description

open Text

/-! ## Taking texts apart -/

def stripStart (start cs : List Char) : Option (List Char) := start.isPrefixOf? cs

/-- The text without the given last character. -/
def stripLast (c : Char) (cs : List Char) : Option (List Char) :=
  if cs.getLast? = some c then some cs.dropLast else none

def isQuote (c : Char) : Bool := c = '\'' || c = '"'

/-- The text without the quotes at its ends. -/
def unquote (cs : List Char) : List Char :=
  ((cs.dropWhile isQuote).reverse.dropWhile isQuote).reverse

/-- What stands before and after the first occurrence of a character. -/
def cutAt (c : Char) (cs : List Char) : Option (List Char × List Char) :=
  match cs.dropWhile (· ≠ c) with
  | [] => none
  | _ :: after => some (cs.takeWhile (· ≠ c), after)

/-! ## Set literals -/

def setWord : List Char := ['s', 'e', 't']

def frozensetWord : List Char := ['f', 'r', 'o', 'z', 'e', 'n'] ++ setWord

/-- What a set literal holds between its brackets: braces alone, or one of
the two set words with parentheses, in which braces may stand. -/
def setBody (cs : List Char) : Option (List Char) :=
  match stripStart ['{'] cs with
  | some inner => stripLast '}' inner
  | none =>
    (cutAt '(' cs).bind fun (word, rest) =>
      if word = setWord ∨ word = frozensetWord then
        (stripLast ')' rest).map fun args =>
          ((stripStart ['{'] args).bind (stripLast '}')).getD args
      else none

/-- The elements of a set literal, and none for any other text. -/
def setElements (cs : List Char) : Option (List (List Char)) :=
  (setBody cs).map fun body => (listItems body).map unquote

/-! ## State names -/

/-- How the name of a subset state starts. -/
def subsetStart : List Char := 'q' :: frozensetWord

/-- The name of the state that stands for a subset. -/
def subsetName (elements : List (List Char)) : List Char :=
  if elements.isEmpty then ['q', '_', 'e', 'm', 'p', 't', 'y']
  else ['q', '_'] ++ List.intercalate ['_'] elements

/-- The name of the state that a token stands for. -/
def stateName (token : List Char) : List Char :=
  let token := trim token
  if subsetStart.isPrefixOf token then
    match setElements (token.drop 1) with
    | some elements => subsetName elements
    | none => token
  else token

/-- The states that the destination of a line stands for. A subset is one
state if that state is declared, and else each of its elements. -/
def destinationNames (states : OrderedSet StateName) (token : List Char) : List (List Char) :=
  let token := trim token
  if subsetStart.isPrefixOf token ∧ String.ofList (stateName token) ∈ states then
    [stateName token]
  else
    match (stripStart ['q'] token).bind setElements with
    | some elements => elements.map ('q' :: ·)
    | none => [stateName token]

/-! ## Rewriting the transition lines

They are brought into the plain form that a transition text has: one line for each
destination, with plain names. -/

/-- Puts right an arrow whose three bytes were read one by one. -/
def mendArrows : List Char → List Char
  | '\u00e2' :: '\u2020' :: '\u2019' :: rest => '→' :: mendArrows rest
  | c :: rest => c :: mendArrows rest
  | [] => []

/-- What stands before and after the first arrow of the plain letters. -/
def cutAtPlainArrow : List Char → Option (List Char × List Char)
  | [] => none
  | '-' :: '>' :: rest => some ([], rest)
  | c :: rest => (cutAtPlainArrow rest).map fun p => (c :: p.1, p.2)

/-- Cuts a line at its first arrow. The arrow character comes before the one
of plain letters, wherever they stand. -/
def cutAtArrow (line : List Char) : Option (List Char × List Char) :=
  (cutAt '→' line).or (cutAtPlainArrow line)

/-- What becomes of a line. -/
inductive Rewritten where
  | blank
  /-- The line has the empty symbol, which no run can read. -/
  | emptySymbol (line : List Char)
  /-- The line stays as it is, for it cannot be taken apart. -/
  | untouched (line : List Char)
  /-- One transition for each destination. -/
  | expanded (xs : List Triple)
  deriving DecidableEq

def rewriteLine (states : OrderedSet StateName) (line : List Char) : Rewritten :=
  if allBlank line then .blank
  else match cutAtArrow line with
    | none => .untouched line
    | some (front, destination) =>
      match cutAtComma 0 front with
      | none => .untouched line
      | some (source, symbol) =>
        if allBlank symbol then .emptySymbol line
        else .expanded ((destinationNames states destination).map fun q =>
          ⟨String.ofList (stateName source), String.ofList (trim symbol), String.ofList q⟩)

/-- The plain text of a line. A line without destinations leaves an empty
line behind. -/
def Rewritten.plain : Rewritten → Option (List Char)
  | blank | emptySymbol _ => none
  | untouched line => some line
  | expanded xs => some (unlines (xs.map TransitionLine.write))

/-- The line, trimmed, if it is dropped for its empty symbol. -/
def Rewritten.dropped? : Rewritten → Option (List Char)
  | emptySymbol line => some (trim line)
  | _ => none

def rewriteLines (states : OrderedSet StateName) (text : List Char) : List Rewritten :=
  (lines text).map fun line => rewriteLine states (mendArrows line)

end Stepwise.Description

namespace Stepwise

open Text

structure Description where
  states : String
  alphabet : String
  initialState : String
  acceptingStates : String
  transitions : String
  deriving DecidableEq, Inhabited

namespace Description

/-! ## Errors -/

inductive Field where
  | states
  | alphabet
  | initialState
  | acceptingStates
  | transitions
  deriving DecidableEq

/-- The fields in the order in which they are checked. -/
def Field.all : List Field := [states, alphabet, initialState, acceptingStates, transitions]

def Field.name : Field → String
  | states => "States"
  | alphabet => "Alphabet"
  | initialState => "Initial_State"
  | acceptingStates => "Accepting_States"
  | transitions => "Transitions"

def get (d : Description) : Field → String
  | .states => d.states
  | .alphabet => d.alphabet
  | .initialState => d.initialState
  | .acceptingStates => d.acceptingStates
  | .transitions => d.transitions

/-- Why a description gives no automaton. -/
inductive Error where
  | unbalancedBraces (field : Field)
  | missingInitialState
  | ambiguousInitialState (found : List String)
  deriving DecidableEq

def Error.message : Error → String
  | unbalancedBraces field => "unbalanced braces in field " ++ field.name
  | missingInitialState => "no initial state given"
  | ambiguousInitialState found =>
    "expected a single initial state but found " ++ ", ".intercalate found

/-! ## Reading a description -/

/-- An automaton, and what was left out on the way to it. -/
structure Decoded where
  automaton : Automaton
  /-- The lines on the empty symbol. -/
  dropped : List (List Char)
  /-- The lines of the rewritten text that are no transitions. -/
  warnings : List LineWarning
  deriving Inhabited

/-- The first field whose brackets do not match. -/
def unbalancedField (d : Description) : Option Field :=
  Field.all.find? fun field => !balanced (d.get field).toList

/-- The states that a list of tokens names. -/
def stateSet (text : String) : OrderedSet StateName :=
  .ofList ((listItems text.toList).map fun token => String.ofList (stateName token))

def symbolSet (text : String) : OrderedSet Symbol :=
  .ofList ((listItems text.toList).map fun token => String.ofList (unquote token))

/-- The transition lines in plain form. -/
def plainTransitions (d : Description) : List Char :=
  unlines ((rewriteLines (stateSet d.states) d.transitions.toList).filterMap Rewritten.plain)

def droppedLines (d : Description) : List (List Char) :=
  (rewriteLines (stateSet d.states) d.transitions.toList).filterMap Rewritten.dropped?

/-- Reads the parts of a description that has one initial state. -/
def decodeFrom (d : Description) (kind : Kind) (initial : List Char) : Decoded :=
  let parsed := TransitionText.parse d.plainTransitions
  { automaton :=
      { kind
        states := stateSet d.states
        alphabet := symbolSet d.alphabet
        table := parsed.table
        initial := String.ofList (stateName initial)
        accepting := stateSet d.acceptingStates }
    dropped := d.droppedLines
    warnings := parsed.warnings }

def decode (d : Description) (kind : Kind) : Except Error Decoded :=
  match d.unbalancedField with
  | some field => .error (.unbalancedBraces field)
  | none =>
    match listItems d.initialState.toList with
    | [] => .error .missingInitialState
    | [single] => .ok (d.decodeFrom kind single)
    | many => .error (.ambiguousInitialState (many.map String.ofList))

/-- What to tell about the lines that were left out, the dropped ones first. -/
def Decoded.notes (r : Decoded) : List String :=
  r.dropped.map (fun line => "dropping transition on the empty symbol: " ++ String.ofList line)
    ++ r.warnings.map LineWarning.message

end Description

/-! ## Conversions -/

/-- The same language as a DFA and as an NFA. -/
structure ConversionResponse where
  dfa : Description
  nfa : Description
  deriving DecidableEq, Inhabited

/-- Both automata. An error of the DFA comes first. -/
def ConversionResponse.decode (r : ConversionResponse) :
    Except Description.Error (Description.Decoded × Description.Decoded) :=
  match r.dfa.decode .dfa with
  | .error e => .error e
  | .ok d =>
    match r.nfa.decode .nfa with
    | .error e => .error e
    | .ok n => .ok (d, n)

/-- What a conversion service is asked for. -/
inductive ConversionRequest where
  | regex (expression : String)
  /-- A description in plain language. -/
  | description (text : String)
  deriving DecidableEq

end Stepwise
