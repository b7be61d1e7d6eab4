-- What is wrong with an automaton. Problems are reported in a fixed order
-- and never stop anything: the initial state, the accepting states, the
-- entries one by one, and for a DFA its determinism and its completeness.
import Stepwise.Automaton

namespace Stepwise

inductive Severity where
  | error
  | warning
  deriving DecidableEq

inductive Diagnostic where
  | undefinedInitialState (q : StateName)
  | undefinedAcceptingState (q : StateName)
  | undefinedSource (q : StateName)
  | undefinedSymbol (symbol : Symbol)
  | undefinedTarget (q : StateName)
  /-- A DFA has a second entry for the same key. -/
  | duplicateKey (key : Key)
  /-- An entry of a DFA has more than one target. -/
  | multipleTargets (key : Key)
  /-- A DFA has no entry for these keys. -/
  | incomplete (missing : List Key)
  deriving DecidableEq

namespace Diagnostic

def severity : Diagnostic → Severity
  | incomplete _ => .warning
  | _ => .error

def isError (d : Diagnostic) : Bool := d.severity = .error

def message : Diagnostic → String
  | undefinedInitialState _ => "Initial state must be one of the defined states"
  | undefinedAcceptingState q => "Accepting state \"" ++ q ++ "\" is not in the states list"
  | undefinedSource q => "Transition from undefined state \"" ++ q ++ "\""
  | undefinedSymbol symbol => "Transition with undefined symbol \"" ++ symbol ++ "\""
  | undefinedTarget q => "Transition to undefined state \"" ++ q ++ "\""
  | duplicateKey key =>
    "Multiple transitions for state-symbol pair \"" ++ key.text ++ "\" in DFA"
  | multipleTargets key => "Multiple target states for \"" ++ key.text ++ "\" in DFA"
  | incomplete missing =>
    "DFA is incomplete. Missing transitions: " ++ ", ".intercalate (missing.map Key.text)

end Diagnostic

namespace Automaton

/-! ## The checks -/

def initialProblems (a : Automaton) : List Diagnostic :=
  if a.initial ∈ a.states then [] else [.undefinedInitialState a.initial]

def acceptingProblems (a : Automaton) : List Diagnostic :=
  (a.accepting.toList.filter fun q => decide (q ∉ a.states)).map .undefinedAcceptingState

/-- The names of one entry that the automaton does not declare. -/
def entryProblems (a : Automaton) (e : Entry) : List Diagnostic :=
  (if e.key.source ∈ a.states then [] else [.undefinedSource e.key.source])
    ++ (if e.key.symbol ∈ a.alphabet then [] else [.undefinedSymbol e.key.symbol])
    ++ (e.targets.toList.filter fun q => decide (q ∉ a.states)).map .undefinedTarget

/-- Reads the entries with the keys that came before. -/
def determinismProblems (seen : List Key) : List Entry → List Diagnostic
  | [] => []
  | e :: es =>
    (if e.key ∈ seen then [.duplicateKey e.key] else [])
      ++ (if e.targets.size > 1 then [.multipleTargets e.key] else [])
      ++ determinismProblems (e.key :: seen) es

/-- The pairs of a state and a symbol that have no entry, state by state. -/
def missingKeys (a : Automaton) : List Key :=
  (a.states.toList.flatMap fun q => a.alphabet.toList.map (Key.mk q)).filter
    fun key => !a.table.hasKey key

def completenessProblems (a : Automaton) : List Diagnostic :=
  if a.missingKeys.isEmpty then [] else [.incomplete a.missingKeys]

/-- All problems of an automaton. There is none in an empty list. -/
def validate (a : Automaton) : List Diagnostic :=
  a.initialProblems ++ a.acceptingProblems ++ a.table.entries.flatMap a.entryProblems
    ++ match a.kind with
      | .dfa => determinismProblems [] a.table.entries ++ a.completenessProblems
      | .nfa => []

/-- The problems in words. -/
def diagnostics (a : Automaton) : List String := a.validate.map Diagnostic.message

end Automaton

end Stepwise
