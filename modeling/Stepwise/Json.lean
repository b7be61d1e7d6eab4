-- JSON values and their texts. Members keep the order in which they stand, also
-- repeated ones, and numbers keep how they were written, so that a count can be told
-- from a fraction that happens to be whole. Values are written without white space, and
-- in a string only quotes, backslashes and the control characters below the blank are
-- escaped. Nothing but a single value with white space around it is read: no comments,
-- no commas at the end, no leading zeros and no raw control characters in strings.
import Stepwise.Numbers

namespace Stepwise

/-- A number as it is written. -/
structure Json.Number where
  negative : Bool
  /-- What stands before the point. -/
  whole : Nat
  /-- The digits after the point. -/
  fraction : List Char
  exponent : Option Int
  deriving DecidableEq, Inhabited

inductive Json where
  | null
  | bool (b : Bool)
  | number (n : Json.Number)
  | string (s : String)
  /-- A string that spells half of a surrogate pair and so names no text, or an
  object with such a member name. -/
  | broken
  | array (items : List Json)
  | object (members : List (String × Json))
  deriving Inhabited

namespace Json

/-! ## Numbers -/

namespace Number

def ofNat (n : Nat) : Number := ⟨false, n, [], none⟩

/-- The count that is written, if there is neither sign, point nor exponent. -/
def toNat? (n : Number) : Option Nat :=
  if !n.negative && n.fraction.isEmpty && n.exponent.isNone then some n.whole else none

/-- The number that some digits spell. -/
def ofDigits (digits : List Char) : Nat :=
  digits.foldl (fun n c => 10 * n + (c.toNat - '0'.toNat)) 0

/-! ## Numbers as doubles -/

/-- Takes in digits as long as they make a word, and gives back the others. -/
def fill : Nat → List Char → Nat × List Char
  | word, [] => (word, [])
  | word, c :: rest =>
    let next := 10 * word + (c.toNat - '0'.toNat)
    if next < wordSize then fill next rest else (word, c :: rest)

/-- The leading digits as a word, and the power of ten to multiply it by. The
digits after the point are taken in until one does not fit, and the rest is
left out. -/
def leading (n : Number) : Nat × Int :=
  let (whole, left) := fill 0 (Nat.toDigits 10 n.whole)
  let (word, lost) := fill whole n.fraction
  let places := n.fraction.length - lost.length
  (word, Int.ofNat left.length - Int.ofNat places + n.exponent.getD 0)

/-- The largest power of ten that is a double. -/
def topPower : Nat := 308

def tenTo (k : Nat) : Float := Float.ofScientific 1 false k

/-- Multiplies by a power of ten. None if the product is too large. -/
def scaleUp (x : Float) (k : Nat) : Option Float :=
  if k ≤ topPower then
    let y := x * tenTo k
    if y.isInf then none else some y
  else if x == 0 then some x
  else none

/-- Divides by a power of ten, in steps that are doubles. After two of them
nothing is left of a word. -/
def scaleDown (x : Float) (k : Nat) : Float :=
  if k ≤ topPower then x / tenTo k
  else if k ≤ 2 * topPower then x / tenTo topPower / tenTo (k - topPower)
  else 0

/-- The number as a double, rounded a few times on the way. None if it is too
large for one. -/
def toFloat? (n : Number) : Option Float :=
  let (word, scale) := n.leading
  let x := word.toUInt64.toFloat
  let size := match scale with
    | .ofNat k => scaleUp x k
    | .negSucc k => some (scaleDown x (k + 1))
  size.map fun y => if n.negative then -y else y

end Number

def ofNat (n : Nat) : Json := .number (.ofNat n)

def ofStrings (ss : List String) : Json := .array (ss.map .string)

/-! ## Reading the parts of a value -/

def string? : Json → Option String
  | string s => some s
  | _ => none

def bool? : Json → Option Bool
  | bool b => some b
  | _ => none

def nat? : Json → Option Nat
  | number n => n.toNat?
  | _ => none

def items? : Json → Option (List Json)
  | array items => some items
  | _ => none

/-- The values of all members of a name. -/
def membersNamed (name : String) (members : List (String × Json)) : List Json :=
  (members.filter fun m => m.1 = name).map Prod.snd

/-! ## Writing -/

def hexDigit (n : Nat) : Char :=
  if n < 10 then Char.ofNat ('0'.toNat + n) else Char.ofNat ('a'.toNat + (n - 10))

/-- A control character by its number. -/
def escapeCode (c : Char) : List Char :=
  ['\\', 'u', '0', '0', hexDigit (c.toNat / 16), hexDigit (c.toNat % 16)]

def escapeChar (c : Char) : List Char :=
  if c = '"' then ['\\', '"']
  else if c = '\\' then ['\\', '\\']
  else if c = '\x08' then ['\\', 'b']
  else if c = '\t' then ['\\', 't']
  else if c = '\n' then ['\\', 'n']
  else if c = '\x0c' then ['\\', 'f']
  else if c = '\r' then ['\\', 'r']
  else if c.toNat < 0x20 then escapeCode c
  else [c]

def writeString (s : String) : List Char := '"' :: s.toList.flatMap escapeChar ++ ['"']

def writeInt : Int → List Char
  | .ofNat n => Nat.toDigits 10 n
  | .negSucc n => '-' :: Nat.toDigits 10 (n + 1)

def Number.write (n : Number) : List Char :=
  (if n.negative then ['-'] else []) ++ Nat.toDigits 10 n.whole
    ++ (if n.fraction.isEmpty then [] else '.' :: n.fraction)
    ++ match n.exponent with
      | none => []
      | some e => 'e' :: writeInt e

mutual

def write : Json → List Char
  | null => ['n', 'u', 'l', 'l']
  | bool true => ['t', 'r', 'u', 'e']
  | bool false => ['f', 'a', 'l', 's', 'e']
  | number n => n.write
  | string s => writeString s
  | broken => writeString "\ufffd"
  | array items => '[' :: writeItems items ++ [']']
  | object members => '{' :: writeMembers members ++ ['}']

def writeItems : List Json → List Char
  | [] => []
  | [v] => write v
  | v :: vs => write v ++ ',' :: writeItems vs

def writeMembers : List (String × Json) → List Char
  | [] => []
  | [(name, v)] => writeString name ++ ':' :: write v
  | (name, v) :: ms => writeString name ++ ':' :: write v ++ ',' :: writeMembers ms

end

/-- The value as a text. -/
def text (j : Json) : String := String.ofList j.write

/-! ## Reading -/

/-- What is left of a text along with what was read from its front. -/
abbrev Read (α : Type) := Option (α × List Char)

def isSpace (c : Char) : Bool := c = ' ' || c = '\t' || c = '\n' || c = '\r'

def skipSpace (cs : List Char) : List Char := cs.dropWhile isSpace

/-! ## Reading strings -/

def hexValue (c : Char) : Option Nat :=
  if '0' ≤ c && c ≤ '9' then some (c.toNat - '0'.toNat)
  else if 'a' ≤ c && c ≤ 'f' then some (c.toNat - 'a'.toNat + 10)
  else if 'A' ≤ c && c ≤ 'F' then some (c.toNat - 'A'.toNat + 10)
  else none

/-- The number that four hexadecimal digits spell. -/
def hexCode (a b c d : Char) : Option Nat :=
  match hexValue a, hexValue b, hexValue c, hexValue d with
  | some a, some b, some c, some d => some (((a * 16 + b) * 16 + c) * 16 + d)
  | _, _, _, _ => none

/-- The character that stands after a backslash, and the one it means. -/
def unescape (c : Char) : Option Char :=
  if c = '"' || c = '\\' || c = '/' then some c
  else if c = 'b' then some '\x08'
  else if c = 't' then some '\t'
  else if c = 'n' then some '\n'
  else if c = 'f' then some '\x0c'
  else if c = 'r' then some '\r'
  else none

/-- Reads a string after its opening quote, as code points and as the halves
of surrogate pairs that only escapes can spell. -/
def readCodes : List Char → Read (List Nat)
  | [] => none
  | '"' :: rest => some ([], rest)
  | '\\' :: 'u' :: a :: b :: c :: d :: rest =>
    (hexCode a b c d).bind fun code => (readCodes rest).map fun p => (code :: p.1, p.2)
  | '\\' :: c :: rest =>
    (unescape c).bind fun u => (readCodes rest).map fun p => (u.toNat :: p.1, p.2)
  | c :: rest =>
    if c.toNat < 0x20 then none else (readCodes rest).map fun p => (c.toNat :: p.1, p.2)

def isHighHalf (code : Nat) : Bool := 0xD800 ≤ code && code ≤ 0xDBFF

def isLowHalf (code : Nat) : Bool := 0xDC00 ≤ code && code ≤ 0xDFFF

/-- The code point of a surrogate pair. -/
def joinHalves (high low : Nat) : Nat := 0x10000 + (high - 0xD800) * 0x400 + (low - 0xDC00)

/-- The text that codes name, unless a half of a pair stands alone. -/
def textOfCodes : List Nat → Option (List Char)
  | [] => some []
  | [code] =>
    if isHighHalf code || isLowHalf code then none else some [Char.ofNat code]
  | code :: next :: rest =>
    if isHighHalf code then
      if isLowHalf next then
        (textOfCodes rest).map (Char.ofNat (joinHalves code next) :: ·)
      else none
    else if isLowHalf code then none
    else (textOfCodes (next :: rest)).map (Char.ofNat code :: ·)

/-- Reads a string after its opening quote, which may name no text. -/
def readString (cs : List Char) : Read (Option String) :=
  (readCodes cs).map fun p => ((textOfCodes p.1).map String.ofList, p.2)

/-! ## Reading numbers -/

/-- Takes digits off the front, at least one. -/
def readDigits (cs : List Char) : Read (List Char) :=
  let digits := cs.takeWhile Char.isDigit
  if digits.isEmpty then none else some (digits, cs.dropWhile Char.isDigit)

def readSign : List Char → Bool × List Char
  | '-' :: rest => (true, rest)
  | cs => (false, cs)

/-- The part before the point. It starts with a zero only if it is zero. -/
def readWhole : List Char → Read Nat
  | '0' :: rest => some (0, rest)
  | cs => (readDigits cs).map fun p => (Number.ofDigits p.1, p.2)

def readFraction : List Char → Read (List Char)
  | '.' :: rest => readDigits rest
  | cs => some ([], cs)

/-- The digits of an exponent with their sign. -/
def readPower : List Char → Read Int
  | '+' :: rest => (readDigits rest).map fun p => (Int.ofNat (Number.ofDigits p.1), p.2)
  | '-' :: rest => (readDigits rest).map fun p => (-Int.ofNat (Number.ofDigits p.1), p.2)
  | cs => (readDigits cs).map fun p => (Int.ofNat (Number.ofDigits p.1), p.2)

def readExponent : List Char → Read (Option Int)
  | c :: rest =>
    if c = 'e' ∨ c = 'E' then (readPower rest).map fun p => (some p.1, p.2)
    else some (none, c :: rest)
  | [] => some (none, [])

def readNumber (cs : List Char) : Read Number :=
  let (negative, cs) := readSign cs
  (readWhole cs).bind fun (whole, cs) =>
    (readFraction cs).bind fun (fraction, cs) =>
      (readExponent cs).map fun (exponent, cs) => (⟨negative, whole, fraction, exponent⟩, cs)

/-! ## Reading values -/

/-- The object of some members. It is broken if one of their names is. -/
def objectOf (members : List (Option String × Json)) : Json :=
  match members.mapM fun m => m.1.map fun name => (name, m.2) with
  | some members => .object members
  | none => .broken

mutual

/-- Reads one value and the white space before it. -/
def readValue : Nat → List Char → Read Json
  | 0, _ => none
  | fuel + 1, cs =>
    match skipSpace cs with
    | '{' :: rest =>
      match skipSpace rest with
      | '}' :: rest => some (.object [], rest)
      | rest => (readMembers fuel rest).map fun p => (objectOf p.1, p.2)
    | '[' :: rest =>
      match skipSpace rest with
      | ']' :: rest => some (.array [], rest)
      | rest => (readItems fuel rest).map fun p => (.array p.1, p.2)
    | '"' :: rest =>
      (readString rest).map fun p => ((p.1.map Json.string).getD .broken, p.2)
    | 'n' :: 'u' :: 'l' :: 'l' :: rest => some (.null, rest)
    | 't' :: 'r' :: 'u' :: 'e' :: rest => some (.bool true, rest)
    | 'f' :: 'a' :: 'l' :: 's' :: 'e' :: rest => some (.bool false, rest)
    | rest => (readNumber rest).map fun p => (.number p.1, p.2)

/-- Reads the items of an array, at least one, up to its end. -/
def readItems : Nat → List Char → Read (List Json)
  | 0, _ => none
  | fuel + 1, cs =>
    (readValue fuel cs).bind fun (v, rest) =>
      match skipSpace rest with
      | ',' :: rest => (readItems fuel rest).map fun p => (v :: p.1, p.2)
      | ']' :: rest => some ([v], rest)
      | _ => none

/-- Reads the members of an object, at least one, up to its end. -/
def readMembers : Nat → List Char → Read (List (Option String × Json))
  | 0, _ => none
  | fuel + 1, cs =>
    match skipSpace cs with
    | '"' :: rest =>
      (readString rest).bind fun (name, rest) =>
        match skipSpace rest with
        | ':' :: rest =>
          (readValue fuel rest).bind fun (v, rest) =>
            match skipSpace rest with
            | ',' :: rest => (readMembers fuel rest).map fun p => ((name, v) :: p.1, p.2)
            | '}' :: rest => some ([(name, v)], rest)
            | _ => none
        | _ => none
    | _ => none

end

/-- Reads a whole text. A value and a list of values take one unit of fuel
each, and each of them but the first a character. -/
def read (cs : List Char) : Option Json :=
  match readValue (2 * cs.length + 2) cs with
  | some (v, rest) => if (skipSpace rest).isEmpty then some v else none
  | none => none

def parse (text : String) : Option Json := read text.toList

end Json

end Stepwise
