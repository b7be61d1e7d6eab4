-- How far a run has come: what is read of the word, which states the
-- automaton may be in, and the verdict once there is one. A step makes a
-- new snapshot and leaves the old one as it was. A batch gives the verdicts
-- of many inputs at once.
import Stepwise.Automaton

namespace Stepwise

/-- An input is read one character at a time. -/
abbrev Word := List Char

/-- The symbol that a character of a word stands for. -/
def Symbol.ofChar (c : Char) : Symbol := String.singleton c

/-! ## The parts of a snapshot -/

/-- The transition that fired last. -/
structure Fired where
  source : StateName
  symbol : Symbol
  target : StateName
  deriving DecidableEq, Inhabited

def Fired.text (f : Fired) : String := "(" ++ f.source ++ ", " ++ f.symbol ++ ", " ++ f.target ++ ")"

instance : Brief Fired := ⟨Fired.text⟩

/-- One way the states of a run may follow each other. The flag tells whether
it accepts, once the whole word is read. -/
structure Path where
  states : List StateName
  accepting : Bool
  deriving DecidableEq, Inhabited

namespace Path

def start (q : StateName) : Path := ⟨[q], false⟩

/-- The state the path is in. -/
def last? (p : Path) : Option StateName := p.states.getLast?

def extend (p : Path) (q : StateName) (accepting : Bool) : Path := ⟨p.states ++ [q], accepting⟩

def length (p : Path) : Nat := p.states.length

def isEmpty (p : Path) : Bool := p.states.isEmpty

def text (p : Path) : String :=
  " → ".intercalate p.states ++ if p.accepting then " ✓" else ""

instance : Brief Path := ⟨text⟩

/-- A path goes on once for each destination of its state. With none it is
gone. -/
def branch (a : Automaton) (symbol : Symbol) (complete : Bool) (p : Path) : List Path :=
  match p.last? with
  | none => []
  | some q => (a.destinations q symbol).toList.map fun r =>
    p.extend r (complete && a.isAccepting r)

end Path

/-! ## Where a set of states leads -/

namespace Automaton

/-- Follows the transitions of one state, with what the states before it
reached and fired. -/
def follow (a : Automaton) (symbol : Symbol) (sofar : OrderedSet StateName × Option Fired)
    (q : StateName) : OrderedSet StateName × Option Fired :=
  (a.destinations q symbol).toList.foldl
    (fun acc r => (acc.1.insert r, some ⟨q, symbol, r⟩)) sofar

/-- Where a set of states leads to on a symbol, and the last transition that
fired on the way. -/
def advance (a : Automaton) (symbol : Symbol) (current : OrderedSet StateName) :
    OrderedSet StateName × Option Fired :=
  current.toList.foldl (follow a symbol) (∅, none)

end Automaton

/-! ## Snapshots -/

/-- A decoded snapshot may hold any numbers, so the length and the step need
not fit the word. -/
structure Snapshot where
  input : Word
  length : Nat
  /-- How many symbols are read. -/
  step : Nat
  current : OrderedSet StateName
  complete : Bool
  accepted : Bool
  last : Option Fired
  /-- The paths still alive, kept for an NFA only. -/
  paths : Option (List Path)
  deriving BEq, Inhabited

namespace Snapshot

def isEmpty (s : Snapshot) : Bool := s.length == 0

/-- Whether the run has no state left to be in. -/
def isDead (s : Snapshot) : Bool := s.current.isEmpty

def consumed (s : Snapshot) : Word := s.input.take s.step

def remaining (s : Snapshot) : Word := s.input.drop s.step

/-- The symbol to be read next. -/
def nextSymbol (s : Snapshot) : Option Char := s.input[s.step]?

def status (s : Snapshot) : String :=
  if s.complete then if s.accepted then "accepted" else "rejected" else "running"

def summary (s : Snapshot) : String :=
  toString s.step ++ "/" ++ toString s.length ++ " " ++ brief s.current ++ " " ++ s.status

instance : Brief Snapshot := ⟨summary⟩

/-- The word cut where the run stands, and the states it may be in. -/
def text (s : Snapshot) : String :=
  "[" ++ String.ofList s.consumed ++ "|" ++ String.ofList s.remaining ++ "] in " ++ brief s.current
    ++ if s.complete then ", " ++ s.status else ""

/-! ## Steps -/

/-- Nothing is read yet. -/
def start (a : Automaton) (word : Word) : Snapshot where
  input := word
  length := word.length
  step := 0
  current := .single a.initial
  complete := false
  accepted := false
  last := none
  paths := match a.kind with
    | .nfa => some [.start a.initial]
    | .dfa => none

/-- The word is read and the verdict is still due: gives it and reads nothing. -/
def resolve (a : Automaton) (s : Snapshot) : Snapshot :=
  { s with complete := true, accepted := s.current.meets a.accepting }

/-- Reads one symbol. If it is the last one, the verdict comes with it. -/
def consume (a : Automaton) (s : Snapshot) (c : Char) : Snapshot :=
  let symbol := Symbol.ofChar c
  let reached := a.advance symbol s.current
  let complete := decide (s.length ≤ s.step + 1)
  { s with
    step := s.step + 1
    current := reached.1
    complete := complete
    accepted := complete && reached.1.meets a.accepting
    last := reached.2
    paths := match a.kind with
      | .nfa => s.paths.map fun ps => ps.flatMap (Path.branch a symbol complete)
      | .dfa => none }

/-- The snapshot after this one, and none when the run is complete. -/
def next? (a : Automaton) (s : Snapshot) : Option Snapshot :=
  if s.complete then none
  else match s.nextSymbol with
    | none => some (s.resolve a)
    | some c => some (s.consume a c)

/-! ## Runs to the end -/

/-- No more steps than this can follow. -/
def fuel (s : Snapshot) : Nat := if s.complete then 0 else s.input.length - s.step + 1

theorem fuel_next? {a : Automaton} {s t : Snapshot} (h : s.next? a = some t) : t.fuel < s.fuel := by
  unfold next? at h
  split at h
  · cases h
  · rename_i hc
    cases hn : s.nextSymbol with
    | none =>
      rw [hn] at h
      cases h
      simp [fuel, resolve, hc]
    | some c =>
      rw [hn] at h
      cases h
      have hlt : s.step < s.input.length := (List.getElem?_eq_some_iff.mp hn).1
      simp only [fuel, consume, hc, Bool.false_eq_true, if_false]
      by_cases hl : s.length ≤ s.step + 1
      · simp only [hl, decide_true, if_true]
        omega
      · simp only [hl, decide_false, Bool.false_eq_true, if_false]
        omega

/-- All snapshots that follow, up to the complete one. -/
def following (a : Automaton) (s : Snapshot) : List Snapshot :=
  match _h : s.next? a with
  | none => []
  | some t => t :: following a t
termination_by s.fuel
decreasing_by exact fuel_next? _h

/-- The snapshot in which the run ends. -/
def finish (a : Automaton) (s : Snapshot) : Snapshot :=
  match _h : s.next? a with
  | none => s
  | some t => finish a t
termination_by s.fuel
decreasing_by exact fuel_next? _h

end Snapshot

namespace Automaton

/-- Every snapshot of the run on a word, from the first to the complete one. -/
def trace (a : Automaton) (word : Word) : List Snapshot :=
  let s := Snapshot.start a word
  s :: s.following a

/-- The complete snapshot of the run on a word. -/
def verdict (a : Automaton) (word : Word) : Snapshot := (Snapshot.start a word).finish a

def accepts (a : Automaton) (word : Word) : Bool := (a.verdict word).accepted

end Automaton

/-! ## Many inputs at once -/

structure BatchResult where
  input : String
  accepted : Bool
  deriving DecidableEq, Inhabited

/-- One verdict for each input, as it is given. Blank ones are left out. -/
def Automaton.runBatch (a : Automaton) (inputs : List String) : List BatchResult :=
  (inputs.filter fun input => !Text.allBlank input.toList).map fun input =>
    ⟨input, a.accepts input.toList⟩

end Stepwise
