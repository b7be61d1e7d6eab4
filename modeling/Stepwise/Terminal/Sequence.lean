-- Escape sequences in a text, told from the text as a terminal tells them: an
-- escape character starts one, and the characters after it decide where it
-- ends. What is left of the text comes in runs, with a sequence between each
-- two of them. Colors and weights are such sequences around a text.

namespace Stepwise.Terminal

/-! ## Reading one character -/

/-- What a control sequence holds so far. -/
structure Control where
  /-- Marks of private use and intermediate characters. -/
  marks : Nat
  /-- Characters between two parameters. -/
  separators : Nat
  deriving DecidableEq

namespace Control

def empty : Control := ⟨0, 0⟩

def mark (k : Control) : Control := { k with marks := k.marks + 1 }

def parameter (k : Control) (c : Char) : Control :=
  if c = ';' || c = ':' then { k with separators := k.separators + 1 } else k

/-- A control sequence has at most one mark and 32 parameters. One with more
does nothing. -/
def isSequence (k : Control) : Bool := k.marks ≤ 1 && k.separators < 32

end Control

/-- What a terminal is in the middle of. -/
inductive Mode where
  | text
  /-- After an escape character. -/
  | escape
  /-- After an escape character and intermediate characters. -/
  | escapeMark
  /-- After an escape character and a bracket. -/
  | control
  | controlParameter (sofar : Control)
  | controlMark (sofar : Control)
  /-- A control sequence that is out of order and will do nothing. -/
  | controlBroken
  /-- A command to the system, such as a link or a title. -/
  | command
  /-- The head of a device control string. -/
  | deviceHead
  /-- A string that is passed over. -/
  | passedOver
  deriving DecidableEq, Inhabited

/-- What a character does. -/
inductive Effect where
  /-- It is shown, or else it acts at once. -/
  | text
  /-- It starts a sequence, also inside of another one. -/
  | opening
  /-- It is held back, as part of a sequence that goes on. -/
  | held
  /-- It ends a sequence. -/
  | sequence
  deriving DecidableEq

def escapeChar : Char := '\x1b'

def between (first last : Nat) (c : Char) : Bool := first ≤ c.toNat && c.toNat ≤ last

/-- A control character acts at once, even inside of a sequence. -/
def isControl : Char → Bool := between 0x00 0x1F

def isIntermediate : Char → Bool := between 0x20 0x2F

def isParameter : Char → Bool := between 0x30 0x3B

/-- A mark of private use, allowed only at the front of the parameters. -/
def isPrivate : Char → Bool := between 0x3C 0x3F

/-- A character that ends a control sequence. -/
def isFinal : Char → Bool := between 0x40 0x7E

def afterEscape (c : Char) : Mode × Effect :=
  if isControl c then (.escape, .text)
  else if isIntermediate c then (.escapeMark, .held)
  else if c = '[' then (.control, .held)
  else if c = ']' then (.command, .held)
  else if c = 'P' then (.deviceHead, .held)
  else if c = 'X' || c = '^' || c = '_' then (.passedOver, .held)
  else if between 0x30 0x7E c then (.text, .sequence)
  else (.escape, .held)

def afterEscapeMark (c : Char) : Mode × Effect :=
  if isControl c then (.escapeMark, .text)
  else if between 0x30 0x7E c then (.text, .sequence)
  else (.escapeMark, .held)

/-- Reads on in a control sequence, given what further parameters and private
marks lead to. -/
def inControl (here : Mode) (sofar : Control) (parameter privateMark : Mode) (c : Char) :
    Mode × Effect :=
  if isControl c then (here, .text)
  else if isIntermediate c then (.controlMark sofar.mark, .held)
  else if isParameter c then (parameter, .held)
  else if isPrivate c then (privateMark, .held)
  else if isFinal c then (.text, if sofar.isSequence then .sequence else .held)
  else (here, .held)

def inBrokenControl (c : Char) : Mode × Effect :=
  if isControl c then (.controlBroken, .text)
  else if isFinal c then (.text, .held)
  else (.controlBroken, .held)

/-- The byte that ends a string that is passed over. It counts also as a part
of a longer character. -/
def stringEnd : UInt8 := 0x9C

/-- Whether a byte of a longer character acts as a control character when it
stands alone. -/
def actsAlone (b : UInt8) : Bool := b ≤ 0x8F || 0x91 ≤ b && b ≤ 0x9A || b == stringEnd

def inPassedOver (c : Char) : Mode × Effect :=
  match (String.utf8EncodeChar c).dropWhile (· != stringEnd) with
  | [] => (.passedOver, .held)
  | _ :: rest => (.text, if rest.any actsAlone then .text else .held)

/-- Two control characters break off whatever goes on. -/
def isCancel (c : Char) : Bool := c = '\x18' || c = '\x1a'

/-- Reads one character. -/
def Mode.step (m : Mode) (c : Char) : Mode × Effect :=
  if c = escapeChar then (.escape, .opening)
  else if isCancel c then (.text, .text)
  else match m with
    | text => (.text, .text)
    | escape => afterEscape c
    | escapeMark => afterEscapeMark c
    | control =>
      inControl .control .empty (.controlParameter (Control.empty.parameter c))
        (.controlParameter Control.empty.mark) c
    | controlParameter sofar =>
      inControl (.controlParameter sofar) sofar (.controlParameter (sofar.parameter c))
        .controlBroken c
    | controlMark sofar =>
      inControl (.controlMark sofar) sofar .controlBroken .controlBroken c
    | controlBroken => inBrokenControl c
    | command => if c = '\x07' then (.text, .sequence) else (.command, .held)
    | deviceHead => (if isFinal c then .passedOver else .deviceHead, .held)
    | passedOver => inPassedOver c

/-- Whether a character ends a command that is still open, without being a
part of it. -/
def Mode.endsBefore (m : Mode) (c : Char) : Bool := m = .command && (c = escapeChar || isCancel c)

/-! ## Runs of text -/

/-- What was read since the last sequence, all of it backwards. -/
structure Pending where
  /-- What is text for sure. -/
  sure : List Char
  /-- What was held back for the last sequence that another one broke off. -/
  broken : List Char
  /-- What was held back since the last escape character. -/
  held : List Char

namespace Pending

def empty : Pending := ⟨[], [], []⟩

/-- One more character, which makes text of what was held back since the last
escape character. What was held back before it is lost. -/
def addText (p : Pending) (c : Char) : Pending := ⟨c :: p.held ++ p.sure, [], []⟩

/-- A sequence that breaks off the one before it. Of those broken off, only the
last one is kept. -/
def start (p : Pending) (c : Char) : Pending := ⟨p.sure, p.held, [c]⟩

def hold (p : Pending) (c : Char) : Pending := { p with held := c :: p.held }

/-- The run that a sequence ends. What was held back belongs to the sequence. -/
def cut (p : Pending) : List (List Char) := if p.sure.isEmpty then [] else [p.sure.reverse]

/-- The run at the end of a text. What was held back for a sequence that never
came to its end is text after all, but not without other text before it. -/
def close (p : Pending) : List (List Char) :=
  if p.sure.isEmpty then [] else [(p.held ++ p.broken ++ p.sure).reverse]

end Pending

def runsFrom : Mode → Pending → List Char → List (List Char)
  | _, p, [] => p.close
  | m, p, c :: rest =>
    let (ended, p) := if m.endsBefore c then (p.cut, .empty) else ([], p)
    ended ++ match m.step c with
      | (m, .text) => runsFrom m (p.addText c) rest
      | (m, .opening) => runsFrom m (p.start c) rest
      | (m, .held) => runsFrom m (p.hold c) rest
      | (m, .sequence) => p.cut ++ runsFrom m .empty rest

/-- The runs of text between the escape sequences. -/
def runs (cs : List Char) : List (List Char) := runsFrom .text .empty cs

/-- The text without its escape sequences. -/
def visible (cs : List Char) : List Char := (runs cs).flatten

/-! ## Styles -/

/-- An escape sequence that sets a style by its number. -/
def select (code : Nat) : String := "\x1b[" ++ toString code ++ "m"

/-- A text between a sequence that sets a style and one that ends it. -/
def styled (set unset : Nat) (text : String) : String := select set ++ text ++ select unset

def green (text : String) : String := styled 32 39 text

def red (text : String) : String := styled 31 39 text

def yellow (text : String) : String := styled 33 39 text

def bold (text : String) : String := styled 1 0 text

def dimmed (text : String) : String := styled 2 0 text

end Stepwise.Terminal
