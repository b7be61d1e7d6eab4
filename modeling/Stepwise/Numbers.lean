-- Numbers of 64 bits. Counts and random draws are words. Doubles are written as
-- decimal texts: the fewest digits that read back as the same double, and of those the
-- nearest, written out without an exponent.

namespace Stepwise

/-- How many words of 64 bits there are. -/
def wordSize : Nat := 0x10000000000000000

end Stepwise

namespace Stepwise.Decimal

/-! ## Doubles as fractions -/

/-- A quotient of two numbers, the second not zero. -/
structure Ratio where
  num : Nat
  den : Nat

/-- The fraction `m * 2 ^ e`. -/
def Ratio.ofBinary (m : Nat) (e : Int) : Ratio :=
  match e with
  | .ofNat e => ⟨m * Nat.pow 2 e, 1⟩
  | .negSucc e => ⟨m, Nat.pow 2 (e + 1)⟩

/-- The value of some digits with the unit `10 ^ k`. -/
def Ratio.ofDecimal (digits : Nat) (k : Int) : Ratio :=
  match k with
  | .ofNat k => ⟨digits * Nat.pow 10 k, 1⟩
  | .negSucc k => ⟨digits, Nat.pow 10 (k + 1)⟩

def Ratio.lt (a b : Ratio) : Bool := a.num * b.den < b.num * a.den

def Ratio.le (a b : Ratio) : Bool := a.num * b.den ≤ b.num * a.den

/-- The mantissa of a double has 52 bits, and one more that is not stored. -/
def hiddenBit : Nat := 0x10000000000000

def signBit : Nat := 0x8000000000000000

/-- The mantissa and the exponent of the size of a finite double. -/
def parts (bits : Nat) : Nat × Int :=
  let fraction := bits % hiddenBit
  let exponent := bits % signBit / hiddenBit
  if exponent = 0 then (fraction, -1074) else (fraction + hiddenBit, Int.ofNat exponent - 1075)

/-- The numbers that are read as one double: those between two halfway
points, these too if the mantissa is even. -/
structure Interval where
  low : Ratio
  value : Ratio
  high : Ratio
  closed : Bool

/-- The gap below a power of two is half as wide as the one above. -/
def Interval.ofParts (m : Nat) (e : Int) : Interval where
  low := .ofBinary (4 * m - if m = hiddenBit ∧ e > -1074 then 1 else 2) (e - 2)
  value := .ofBinary (4 * m) (e - 2)
  high := .ofBinary (4 * m + 2) (e - 2)
  closed := m % 2 = 0

def Interval.holds (i : Interval) (r : Ratio) : Bool :=
  if i.closed then i.low.le r && r.le i.high else i.low.lt r && r.lt i.high

/-! ## The fewest digits -/

/-- The multiples of `10 ^ k` next to a value, as their digits. -/
def neighbours (value : Ratio) (k : Int) : Nat × Nat :=
  let floor := match k with
    | .ofNat k => value.num / (value.den * Nat.pow 10 k)
    | .negSucc k => value.num * Nat.pow 10 (k + 1) / value.den
  (floor, floor + 1)

/-- Whether the upper of two neighbours is at least as near. -/
def upperIsNearer (value : Ratio) (k : Int) (floor : Nat) : Bool :=
  let middle := Ratio.ofDecimal (2 * floor + 1) k
  Ratio.le ⟨middle.num, 2 * middle.den⟩ value

/-- The digits on the grid of `10 ^ k` that read back, if there are any. -/
def digitsOn (i : Interval) (k : Int) : Option (Nat × Int) :=
  let (lower, upper) := neighbours i.value k
  let hasLower := lower > 0 && i.holds (.ofDecimal lower k)
  let hasUpper := i.holds (.ofDecimal upper k)
  if hasUpper && (!hasLower || upperIsNearer i.value k lower) then some (upper, k)
  else if hasLower then some (lower, k)
  else none

/-- The units to try, the widest first. -/
def units : List Int := (List.range 640).map fun i => 310 - Int.ofNat i

def shortest (m : Nat) (e : Int) : Nat × Int :=
  ((units.findSome? (digitsOn (.ofParts m e)))).getD (0, 0)

/-! ## Texts -/

/-- Digits with the unit `10 ^ k`, written out. -/
def positional (digits : Nat) (k : Int) : List Char :=
  let ds := Nat.toDigits 10 digits
  match k with
  | .ofNat k => ds ++ List.replicate k '0'
  | .negSucc k =>
    let places := k + 1
    let padded := List.replicate (places + 1 - ds.length) '0' ++ ds
    padded.take (padded.length - places) ++ '.' :: padded.drop (padded.length - places)

/-- The size of a double. -/
def sizeText (bits : Nat) : List Char :=
  let (m, e) := parts bits
  if m = 0 then ['0']
  else
    let (digits, k) := shortest m e
    positional digits k

/-- A double as a text, a minus sign also before a negative zero. -/
def plain (x : Float) : String :=
  let bits := x.toBits.toNat
  if x.isNaN then "NaN"
  else
    let sign := if bits ≥ signBit then "-" else ""
    if x.isInf then sign ++ "inf" else sign ++ String.ofList (sizeText bits)

end Stepwise.Decimal
