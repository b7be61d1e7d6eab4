-- A run that can be stepped both ways: the snapshots from the first to the
-- current one. Going back drops the newest snapshot, so nothing is worked
-- out again, and the first snapshot always stays.
import Stepwise.Snapshot

namespace Stepwise

structure History where
  first : Snapshot
  /-- The snapshots after the first, the newest in front. -/
  later : List Snapshot
  deriving BEq, Inhabited

namespace History

def start (a : Automaton) (word : Word) : History := ⟨.start a word, []⟩

/-- From oldest to newest. -/
def snapshots (h : History) : List Snapshot := h.first :: h.later.reverse

/-- The newest snapshot. -/
def current (h : History) : Snapshot := h.later.headD h.first

def length (h : History) : Nat := h.later.length + 1

def isEmpty (h : History) : Bool := h.snapshots.isEmpty

def isFinished (h : History) : Bool := h.current.complete

def push (h : History) (s : Snapshot) : History := { h with later := s :: h.later }

/-- One step on, unless the run is complete. -/
def forward (h : History) (a : Automaton) : Option History := (h.current.next? a).map h.push

/-- One step back, unless only the first snapshot is left. -/
def backward (h : History) : Option History :=
  match h.later with
  | [] => none
  | _ :: later => some { h with later }

/-- Steps on until the run is complete. -/
def play (h : History) (a : Automaton) : History := (h.current.following a).foldl push h

/-- How many steps a play takes. -/
def stepsToPlay (h : History) (a : Automaton) : Nat := (h.current.following a).length

/-- Back to the first snapshot. -/
def reset (h : History) : History := { h with later := [] }

/-! ## Sessions -/

/-- What one can do with a history. Every step on names the automaton it is
taken with, which may have been edited since the last one. -/
inductive Move where
  | forward (a : Automaton)
  | backward
  | play (a : Automaton)
  | reset

/-- A move that is refused leaves the history as it is. -/
def move (h : History) : Move → History
  | .forward a => (h.forward a).getD h
  | .backward => h.backward.getD h
  | .play a => h.play a
  | .reset => h.reset

def moveAll (h : History) (moves : List Move) : History := moves.foldl move h

end History

end Stepwise
