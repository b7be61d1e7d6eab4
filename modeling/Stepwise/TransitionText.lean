-- Transitions as people write them, one a line: a state, a comma, a symbol, an
-- arrow and a state. State names are words of letters, digits and underscores.
-- The symbol is any text between the first comma and the last arrow, so it may
-- hold commas and arrows itself. Every well formed line adds its transition,
-- blank lines are skipped, and every other line is left out with a warning that
-- gives its number.
import Stepwise.Table

namespace Stepwise.TransitionLine

open Text

/-! ## The pieces of a line -/

/-- Letters, digits and underscores of ASCII. -/
def isWordChar (c : Char) : Bool := c.isAlphanum || c = '_'

def isWord (cs : List Char) : Bool := !cs.isEmpty && cs.all isWordChar

/-- What stands before and after the first comma. -/
def cutAtFirstComma : List Char → Option (List Char × List Char)
  | [] => none
  | c :: rest =>
    if c = ',' then some ([], rest)
    else (cutAtFirstComma rest).map fun p => (c :: p.1, p.2)

/-- Takes an arrow off the end of a text that is written backwards. -/
def dropArrow : List Char → Option (List Char)
  | '→' :: rest => some rest
  | '>' :: '-' :: rest => some rest
  | _ => none

/-- The symbol that a text between comma and arrow names: the text trimmed,
or its last character if it is all white space. -/
def symbolOf (between : List Char) : List Char :=
  if allBlank between then between.drop (between.length - 1) else trim between

/-- Reads what stands after the comma, from its end: a target, an arrow and
before it at least one character. -/
def readTail (tail : List Char) : Option (List Char × List Char) :=
  let back := tail.reverse.dropWhile isBlank
  let target := (back.takeWhile isWordChar).reverse
  match dropArrow ((back.dropWhile isWordChar).dropWhile isBlank) with
  | none => none
  | some before =>
    if target.isEmpty || before.isEmpty then none else some (symbolOf before.reverse, target)

/-- The transition that a line adds, if it is well formed. -/
def read (line : List Char) : Option Triple :=
  match cutAtFirstComma line with
  | none => none
  | some (front, tail) =>
    let source := trim front
    if isWord source then
      (readTail tail).map fun p => ⟨String.ofList source, String.ofList p.1, String.ofList p.2⟩
    else none

/-- A transition as a line. -/
def write (x : Triple) : List Char :=
  x.source.toList ++ ',' :: x.symbol.toList ++ [' ', '→', ' '] ++ x.target.toList

/-! ## What is wrong with a line -/

inductive Fault where
  | missingArrow
  | missingComma
  | malformed
  deriving DecidableEq

def Fault.reason : Fault → String
  | missingArrow => "missing arrow"
  | missingComma => "missing comma between state and symbol"
  | malformed =>
    "expected state,symbol -> target with letters, digits and underscores in state names"

def hasArrow : List Char → Bool
  | [] => false
  | '→' :: _ => true
  | '-' :: '>' :: _ => true
  | _ :: rest => hasArrow rest

/-- Why a line that could not be read is wrong. -/
def fault (line : List Char) : Fault :=
  if !hasArrow line then .missingArrow
  else if ',' ∉ line then .missingComma
  else .malformed

end Stepwise.TransitionLine

namespace Stepwise

open Text

/-! ## Many lines -/

/-- A line that was left out. Lines are counted from one. -/
structure LineWarning where
  line : Nat
  text : List Char
  fault : TransitionLine.Fault
  deriving DecidableEq

def LineWarning.message (w : LineWarning) : String :=
  "Ignoring line " ++ toString w.line ++ " \"" ++ String.ofList (trim w.text) ++ "\": "
    ++ w.fault.reason

structure TransitionText where
  table : Table
  warnings : List LineWarning
  deriving Inhabited

namespace TransitionText

/-- Takes in one line with its number. -/
def addLine (sofar : TransitionText) (numbered : List Char × Nat) : TransitionText :=
  let (line, number) := numbered
  if allBlank line then sofar
  else match TransitionLine.read line with
    | some x => { sofar with table := sofar.table.add x }
    | none =>
      { sofar with warnings := sofar.warnings ++ [⟨number, line, TransitionLine.fault line⟩] }

def parse (text : List Char) : TransitionText :=
  ((lines text).zipIdx 1).foldl addLine ⟨.empty, []⟩

end TransitionText

/-- One line for each transition, in the order of the table. -/
def Table.format (t : Table) : List Char := unlines (t.triples.map TransitionLine.write)

end Stepwise
