-- What people get to see as a table: the transitions of an automaton, the
-- verdicts of a batch and the snapshots of a history. A table has a round
-- frame. The first row is the header, cells stand to the left with a blank on
-- either side, and a column is as wide as its widest cell. A header without
-- rows is left open below.
import Stepwise.History
import Stepwise.Terminal.Width

namespace Stepwise

/-! ## Grids

A grid is drawn with any measure of how many columns a cell takes. -/

namespace Terminal

abbrev Cell := List Char

structure Grid where
  header : List Cell
  rows : List (List Cell)

namespace Grid

def ofStrings (header : List String) (rows : List (List String)) : Grid :=
  ⟨header.map String.toList, rows.map fun row => row.map String.toList⟩

/-- The wider of two widths, column by column. -/
def maxWidths : List Nat → List Nat → List Nat
  | [], vs => vs
  | us, [] => us
  | u :: us, v :: vs => max u v :: maxWidths us vs

variable (measure : Cell → Nat)

def columnWidths (g : Grid) : List Nat :=
  (g.header :: g.rows).foldl (fun ws row => maxWidths ws (row.map measure)) []

/-- A line of the frame. -/
def rule (left between right : Char) (widths : List Nat) : List Char :=
  left :: List.intercalate [between] (widths.map fun w => List.replicate (w + 2) '─') ++ [right]

/-- A cell, filled up with blanks to the width of its column. -/
def pad (w : Nat) (cell : Cell) : List Char :=
  ' ' :: cell ++ List.replicate (w - measure cell + 1) ' '

/-- One row. A cell that is missing at its end is blank. -/
def line : List Nat → List Cell → List Char
  | [], _ => ['│']
  | w :: ws, [] => '│' :: pad measure w [] ++ line ws []
  | w :: ws, cell :: cells => '│' :: pad measure w cell ++ line ws cells

def lines (g : Grid) : List (List Char) :=
  let ws := g.columnWidths measure
  [rule '╭' '┬' '╮' ws, line measure ws g.header, rule '├' '┼' '┤' ws]
    ++ g.rows.map (line measure ws)
    ++ if g.rows.isEmpty then [] else [rule '╰' '┴' '╯' ws]

def render (g : Grid) : String := String.ofList (Text.unlines (g.lines measure))

end Grid

end Terminal

open Terminal

/-! ## Transition tables -/

namespace Automaton

/-- A state with an arrow before it if it is initial, and a star if it is
accepting. -/
def markedState (a : Automaton) (q : StateName) : String :=
  (if q = a.initial then "→" else "") ++ (if a.isAccepting q then "*" else "") ++ q

/-- A single destination stands for itself, and braces go around several. -/
def destinationCell (a : Automaton) (q : StateName) (symbol : Symbol) : String :=
  match (a.destinations q symbol).toList with
  | [] => "-"
  | [r] => r
  | rs => inBraces rs

/-- A row for each state and a column for each symbol, the states written by
the given function. -/
def transitionGrid (a : Automaton) (write : StateName → String) : Grid :=
  .ofStrings ("State" :: a.alphabet.toList)
    (a.states.toList.map fun q => write q :: a.alphabet.toList.map (a.destinationCell q))

def transitionTable (a : Automaton) : String := (a.transitionGrid a.markedState).render width

/-- The marked state, in color if it is accepting. -/
def coloredState (a : Automaton) (q : StateName) : String :=
  if a.isAccepting q then bold (green (a.markedState q)) else a.markedState q

def coloredTransitionTable (a : Automaton) : String :=
  (a.transitionGrid a.coloredState).render width

/-- The kind, the alphabet and the transition table. -/
def text (a : Automaton) : String :=
  a.kind.name ++ " with " ++ toString a.size ++ " states\nalphabet: "
    ++ ", ".intercalate a.alphabet.toList ++ "\n" ++ a.transitionTable

end Automaton

/-! ## Batches -/

def BatchResult.verdictCell (r : BatchResult) : String :=
  if r.accepted then green "accepted" else red "rejected"

def resultsTable (results : List BatchResult) : String :=
  (Grid.ofStrings ["Input", "Result"] (results.map fun r => [r.input, r.verdictCell])).render width

/-! ## Histories -/

/-- The status in green or red once there is a verdict, and dimmed before. -/
def Snapshot.statusCell (s : Snapshot) : String :=
  if s.complete then bold (if s.accepted then green s.status else red s.status)
  else dimmed s.status

def Snapshot.cells (s : Snapshot) : List String :=
  [toString s.step, String.ofList s.consumed, String.ofList s.remaining, brief s.current,
   brief s.last, s.statusCell]

def History.table (h : History) : String :=
  (Grid.ofStrings ["Step", "Consumed", "Remaining", "States", "Transition", "Status"]
    (h.snapshots.map Snapshot.cells)).render width

end Stepwise
