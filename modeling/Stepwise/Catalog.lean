-- Well known automata, to be asked for by name.
import Stepwise.Automaton

namespace Stepwise.Catalog

def binary : List Symbol := ["0", "1"]

/-- The DFA an editor starts out with. -/
def defaultDfa : Automaton :=
  ((Builder.new .dfa).applyAll
    [.states ["q0", "q1", "q2"], .alphabet binary,
     .transitions
      [⟨"q0", "0", "q2"⟩, ⟨"q0", "1", "q0"⟩, ⟨"q1", "0", "q1"⟩, ⟨"q1", "1", "q2"⟩,
       ⟨"q2", "0", "q0"⟩, ⟨"q2", "1", "q1"⟩],
     .initial "q1", .accepting ["q1"]]).build

/-- Accepts the binary words that end in 01, by a guess of where they end. -/
def exampleNfa : Automaton :=
  ((Builder.new .nfa).applyAll
    [.states ["q0", "q1", "q2"], .alphabet binary,
     .transitions
      [⟨"q0", "0", "q0"⟩, ⟨"q0", "0", "q1"⟩, ⟨"q0", "1", "q0"⟩, ⟨"q1", "1", "q2"⟩],
     .initial "q0", .accepting ["q2"]]).build

/-- Accepts the multiples of three in base two. The number of a state is the
remainder of what was read. -/
def binaryDivisibleByThree : Automaton :=
  ((Builder.new .dfa).applyAll
    [.states ["r0", "r1", "r2"], .alphabet binary,
     .transitions
      [⟨"r0", "0", "r0"⟩, ⟨"r0", "1", "r1"⟩, ⟨"r1", "0", "r2"⟩, ⟨"r1", "1", "r0"⟩,
       ⟨"r2", "0", "r1"⟩, ⟨"r2", "1", "r2"⟩],
     .initial "r0", .accepting ["r0"]]).build

/-- Accepts the binary words with an even number of zeros. -/
def evenNumberOfZeros : Automaton :=
  ((Builder.new .dfa).applyAll
    [.states ["even", "odd"], .alphabet binary,
     .transitions
      [⟨"even", "0", "odd"⟩, ⟨"even", "1", "even"⟩, ⟨"odd", "0", "even"⟩, ⟨"odd", "1", "odd"⟩],
     .initial "even", .accepting ["even"]]).build

def all : List (String × Automaton) :=
  [("default-dfa", defaultDfa), ("example-nfa", exampleNfa),
   ("binary-divisible-by-three", binaryDivisibleByThree),
   ("even-number-of-zeros", evenNumberOfZeros)]

/-- A name as it stands in the catalog: trimmed, in small letters, with
dashes for underscores. -/
def canonicalName (name : String) : String :=
  String.ofList ((Text.trim name.toList).map fun c => if c = '_' then '-' else c.toLower)

def find? (name : String) : Option Automaton := all.lookup (canonicalName name)

end Stepwise.Catalog
