-- Random automata and random words. A random DFA grows from one state: each
-- edge goes back to a state that is there, or on to a new one, until every
-- state has all its edges.
import Stepwise.Automaton
import Stepwise.Numbers
import Stepwise.Random.Source

namespace Stepwise.Random

/-- Small letters, from the start again after z. -/
def letters (n : Nat) : List Symbol :=
  (List.range n).map fun i => String.singleton (Char.ofNat ('a'.toNat + i % 26))

/-- The name of a state by its number. -/
def stateNamed (n : Nat) : StateName := "q" ++ toString n

/-! ## Random DFAs -/

inductive DfaFailure where
  /-- With such a probability new states would come forever. -/
  | notPositive (probability : Float)
  /-- The states have run out before the growth came to its end. -/
  | endless

def DfaFailure.message : DfaFailure → String
  | notPositive probability =>
    "back edge probability must be positive, got " ++ Decimal.plain probability
  | endless => "too many states"

/-- A DFA that grows, with the number of its states. -/
structure Growth where
  builder : Builder
  size : Nat

namespace Growth

variable {σ : Type}

def start (alphabet : List Symbol) : Growth where
  builder := (Builder.new .dfa).applyAll [.alphabet alphabet, .states [stateNamed 0]]
  size := 1

/-- Adds an edge to a state that is there, or to a new one. -/
def connect (g : Growth) (current : Nat) (symbol : Symbol) (hit : Option Nat) : Growth :=
  let target := hit.getD g.size
  { builder := g.builder.applyAll
      [.states [stateNamed target],
       .transitions [⟨stateNamed current, symbol, stateNamed target⟩]]
    size := if hit.isNone then g.size + 1 else g.size }

/-- Draws the edge of a state on a symbol. The states up to this one are tried
in order. -/
def addEdge (src : Source σ) (p : Float) (current : Nat) (g : Growth) (symbol : Symbol) :
    StateM σ Growth := do
  return g.connect current symbol (← src.firstHit p (List.range (current + 1)))

/-- Gives every state from the current one on its edges. The fuel bounds how
many states get theirs. -/
def run (src : Source σ) (alphabet : List Symbol) (p : Float) :
    Nat → Nat → Growth → StateM σ (Option Growth)
  | 0, _, _ => pure none
  | fuel + 1, current, g =>
    if current < g.size then do
      let g ← alphabet.foldlM (addEdge src p current) g
      run src alphabet p fuel (current + 1) g
    else pure (some g)

end Growth

/-- A complete DFA over so many letters. Back edges come with the given
probability, and every state is accepting with probability one half. -/
def randomDfa {σ : Type} (src : Source σ) (fuel symbols : Nat) (probability : Float) :
    StateM σ (Except DfaFailure Automaton) :=
  if 0 < probability then do
    let alphabet := letters symbols
    match ← Growth.run src alphabet probability fuel 0 (.start alphabet) with
    | none => return .error .endless
    | some g =>
      let accepting ← src.someOf (List.range g.size)
      return .ok (g.builder.applyAll
        [.initial (stateNamed 0), .accepting (accepting.map stateNamed)]).build
  else pure (.error (.notPositive probability))

/-! ## Random NFAs -/

/-- Every transition that an NFA with these states and symbols may have. -/
def allTriples (states : List StateName) (alphabet : List Symbol) : List Triple :=
  states.flatMap fun q => alphabet.flatMap fun symbol => states.map fun r => ⟨q, symbol, r⟩

def addByChance {σ : Type} (src : Source σ) (density : Float) (t : Table) (x : Triple) :
    StateM σ Table := do
  return if ← src.chance density then t.add x else t

/-- An NFA with at least one state. Each transition is there with the given
probability, and every state is accepting with probability one half. -/
def randomNfa {σ : Type} (src : Source σ) (symbols size : Nat) (density : Float) :
    StateM σ Automaton := do
  let states := (List.range (max size 1)).map stateNamed
  let alphabet := letters symbols
  let table ← (allTriples states alphabet).foldlM (addByChance src density) .empty
  let accepting ← src.someOf states
  return ⟨.nfa, .ofList states, .ofList alphabet, table, stateNamed 0, .ofList accepting⟩

/-! ## Random words -/

/-- The characters that are symbols by themselves. -/
def characters (alphabet : OrderedSet Symbol) : List Char :=
  alphabet.toList.filterMap fun symbol =>
    match symbol.toList with
    | [c] => some c
    | _ => none

/-- A word with a length from the given range, which is one length if its
ends are the wrong way round. It is empty if no symbol is a character. -/
def randomWord {σ : Type} (src : Source σ) (alphabet : OrderedSet Symbol) (low high : Nat) :
    StateM σ String :=
  match characters alphabet with
  | [] => pure ""
  | c :: cs => do
    let length ← src.between low (max high low)
    let word ← times length do return (c :: cs).getD (← src.below (cs.length + 1)) c
    return String.ofList word

def randomWords {σ : Type} (src : Source σ) (alphabet : OrderedSet Symbol) (low high : Nat)
    (number : Nat) : StateM σ (List String) :=
  times number (randomWord src alphabet low high)

end Stepwise.Random
