-- Texts: which characters are white space and how a text is trimmed, its lines, the
-- commas outside of its brackets, and the lists that people type into a field. Then
-- short texts for values, with which tables and messages are filled: sets in braces,
-- lists in brackets, and a dash where there is nothing.
import Stepwise.OrderedSet

namespace Stepwise.Text

/-! ## White space

The class is White_Space of the Unicode standard, which is wider than ASCII: a no-break
space and a line separator belong to it. -/

/-- The first and last code point of each range of the class. -/
def blankRanges : List (Nat × Nat) :=
  [(0x09, 0x0D), (0x20, 0x20), (0x85, 0x85), (0xA0, 0xA0), (0x1680, 0x1680),
   (0x2000, 0x200A), (0x2028, 0x2029), (0x202F, 0x202F), (0x205F, 0x205F),
   (0x3000, 0x3000)]

def isBlank (c : Char) : Bool :=
  blankRanges.any fun r => r.1 ≤ c.toNat && c.toNat ≤ r.2

/-- Whether a text holds nothing but white space. -/
def allBlank (cs : List Char) : Bool := cs.all isBlank

def trimStart (cs : List Char) : List Char := cs.dropWhile isBlank

def trimEnd (cs : List Char) : List Char := (cs.reverse.dropWhile isBlank).reverse

/-- The text without the white space around it. -/
def trim (cs : List Char) : List Char := trimEnd (trimStart cs)

/-! ## Lines

A line ends at a line feed, which takes one carriage return before it along. A text that
ends with a line feed has no further line, and a carriage return at the very end belongs
to the last line. -/

def lines : List Char → List (List Char)
  | [] => []
  | '\r' :: '\n' :: rest => [] :: lines rest
  | '\n' :: rest => [] :: lines rest
  | c :: rest =>
    match lines rest with
    | [] => [[c]]
    | line :: more => (c :: line) :: more

/-- The lines joined, a line feed between each two. -/
def unlines (ls : List (List Char)) : List Char := List.intercalate ['\n'] ls

/-! ## The depth of a place

A comma counts as a separator only outside of all brackets, so a subset such as the one
that a construction writes for a state stays in one piece. -/

def isOpening (c : Char) : Bool := c = '{' || c = '('

def isClosing (c : Char) : Bool := c = '}' || c = ')'

/-- The depth after a character. A closing bracket that closes nothing
leaves the depth at zero. -/
def depthAfter (depth : Nat) (c : Char) : Nat :=
  if isOpening c then depth + 1
  else if isClosing c then depth - 1
  else depth

/-! ## Commas outside of all brackets -/

/-- The parts between the commas at depth zero. -/
def commaParts (depth : Nat) : List Char → List (List Char)
  | [] => [[]]
  | c :: rest =>
    if c = ',' ∧ depth = 0 then [] :: commaParts depth rest
    else
      match commaParts (depthAfter depth c) rest with
      | [] => [[c]]
      | part :: parts => (c :: part) :: parts

/-- What stands before and after the first comma at depth zero. -/
def cutAtComma (depth : Nat) : List Char → Option (List Char × List Char)
  | [] => none
  | c :: rest =>
    if c = ',' ∧ depth = 0 then some ([], rest)
    else (cutAtComma (depthAfter depth c) rest).map fun p => (c :: p.1, p.2)

/-! ## Balance -/

/-- Reads a text with the given brackets still open, the innermost first. -/
def balancedFrom : List Char → List Char → Bool
  | openOnes, [] => openOnes.isEmpty
  | openOnes, c :: rest =>
    if isOpening c then balancedFrom (c :: openOnes) rest
    else if isClosing c then
      match openOnes with
      | [] => false
      | o :: os => (o = '{' && c = '}' || o = '(' && c = ')') && balancedFrom os rest
    else balancedFrom openOnes rest

/-- Whether every bracket is closed by one of its own kind. -/
def balanced (cs : List Char) : Bool := balancedFrom [] cs

/-! ## Lists -/

/-- The elements of a comma separated list, trimmed, the empty ones left
out. A comma inside brackets does not separate. -/
def listItems (cs : List Char) : List (List Char) :=
  ((commaParts 0 cs).map trim).filter fun item => !item.isEmpty

def parseList (text : String) : List String :=
  (listItems text.toList).map String.ofList

end Stepwise.Text

namespace Stepwise

/-! ## Short texts for values -/

class Brief (α : Type) where
  brief : α → String

export Brief (brief)

/-- Texts in braces, as a set is written. -/
def inBraces (texts : List String) : String := "\x7b" ++ ", ".intercalate texts ++ "\x7d"

/-- Texts in brackets, as a list is written. -/
def inBrackets (texts : List String) : String := "[" ++ ", ".intercalate texts ++ "]"

instance : Brief String := ⟨id⟩

instance : Brief Nat := ⟨toString⟩

instance : Brief Bool := ⟨fun b => if b then "+" else "-"⟩

instance {α : Type} [Brief α] : Brief (OrderedSet α) := ⟨fun s => inBraces (s.toList.map brief)⟩

instance {α : Type} [Brief α] : Brief (List α) := ⟨fun l => inBrackets (l.map brief)⟩

instance {α : Type} [Brief α] : Brief (Option α) := ⟨fun o => (o.map brief).getD "-"⟩

instance {α β : Type} [Brief α] [Brief β] : Brief (α × β) :=
  ⟨fun p => "(" ++ brief p.1 ++ ", " ++ brief p.2 ++ ")"⟩

end Stepwise
