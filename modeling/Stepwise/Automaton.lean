-- Finite automata over named states. Nothing is required of the parts: a
-- state that was never declared may be initial, accepting or a target. What
-- is wrong with an automaton is reported, and it runs all the same. Automata
-- are put together call by call: calls may come in any order, and nothing is
-- checked; the alphabet holds what was added to it and nothing that merely
-- labels a transition.
import Stepwise.Table

namespace Stepwise

/-! ## Kinds

The kind decides what is reported as a problem and whether a run keeps its paths. It does
not change how a run steps. -/

inductive Kind where
  | dfa
  | nfa
  deriving DecidableEq, Inhabited

/-- A text that names no kind. -/
structure UnknownKind where
  given : String
  deriving DecidableEq

namespace Kind

def name : Kind → String
  | dfa => "DFA"
  | nfa => "NFA"

/-- Reads a kind. White space around it and the case of its letters do not
matter. -/
def parse (text : String) : Except UnknownKind Kind :=
  let word := (Text.trim text.toList).map Char.toLower
  if word = ['d', 'f', 'a'] then .ok dfa
  else if word = ['n', 'f', 'a'] then .ok nfa
  else .error ⟨text⟩

end Kind

def UnknownKind.message (e : UnknownKind) : String :=
  "unknown automaton kind \"" ++ e.given ++ "\", expected DFA or NFA"

/-! ## Automata -/

structure Automaton where
  kind : Kind
  states : OrderedSet StateName
  alphabet : OrderedSet Symbol
  table : Table
  initial : StateName
  accepting : OrderedSet StateName
  deriving BEq, Inhabited

namespace Automaton

/-- The same automaton read as one of the other kind. -/
def withKind (a : Automaton) (kind : Kind) : Automaton := { a with kind := kind }

def size (a : Automaton) : Nat := a.states.size

def isAccepting (a : Automaton) (q : StateName) : Bool := decide (q ∈ a.accepting)

/-- Where a state leads to on a symbol. Unknown states and symbols lead
nowhere. -/
def destinations (a : Automaton) (q : StateName) (symbol : Symbol) : OrderedSet StateName :=
  a.table.destinations ⟨q, symbol⟩

/-- One line with the kind and all parts but the table. -/
def summary (a : Automaton) : String :=
  a.kind.name ++ "(" ++ brief a.states ++ ", " ++ brief a.alphabet ++ ", " ++ a.initial ++ ", "
    ++ brief a.accepting ++ ")"

instance : Brief Automaton := ⟨summary⟩

end Automaton

/-! ## Building call by call -/

structure Builder where
  kind : Kind
  states : OrderedSet StateName
  alphabet : OrderedSet Symbol
  table : Table
  initial : Option StateName
  accepting : OrderedSet StateName
  deriving Inhabited

namespace Builder

def new (kind : Kind) : Builder := ⟨kind, ∅, ∅, .empty, none, ∅⟩

/-- One call on a builder. -/
inductive Call where
  | states (qs : List StateName)
  | alphabet (symbols : List Symbol)
  | transitions (xs : List Triple)
  | entry (key : Key) (targets : List StateName)
  /-- Drops the transitions so far for those of a table. -/
  | table (t : Table)
  | initial (q : StateName)
  | accepting (qs : List StateName)

def apply (b : Builder) : Call → Builder
  | .states qs => { b with states := b.states.insertAll qs }
  | .alphabet symbols => { b with alphabet := b.alphabet.insertAll symbols }
  | .transitions xs => { b with table := b.table.addAll xs }
  | .entry key targets => { b with table := b.table.pushEntry key targets }
  | .table t => { b with table := t }
  | .initial q => { b with initial := some q }
  | .accepting qs => { b with accepting := b.accepting.insertAll qs }

def applyAll (b : Builder) (calls : List Call) : Builder := calls.foldl apply b

/-- The automaton of all calls so far. Without an initial state the first
state is taken, and without any state the empty name. -/
def build (b : Builder) : Automaton where
  kind := b.kind
  states := b.states
  alphabet := b.alphabet
  table := b.table
  initial := (b.initial.or b.states.first?).getD ""
  accepting := b.accepting

end Builder

end Stepwise
