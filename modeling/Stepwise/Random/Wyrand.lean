-- A source of random words with a state of 64 bits. The state goes up by a
-- fixed odd step, so it runs through all words before one comes again, and
-- each word is the folded product of the state and a scrambled copy of it.
import Stepwise.Numbers
import Stepwise.Random.Source

namespace Stepwise.Random

structure Wyrand where
  state : UInt64
  deriving DecidableEq, Inhabited

namespace Wyrand

def ofSeed (seed : UInt64) : Wyrand := ⟨seed⟩

/-- The word that a state yields. -/
def fold (s : UInt64) : UInt64 :=
  let product := s.toNat * (s ^^^ 0x8bb84b93962eacc9).toNat
  product.toUInt64 ^^^ (product / wordSize).toUInt64

def word : StateM Wyrand UInt64 := fun g =>
  let s := g.state + 0x2d358dccaa6c78a5
  (fold s, ⟨s⟩)

/-- After so many words the state is the same again, so a loop that waits for
some word to come has seen all of them. -/
def period : Nat := wordSize

/-- A number from zero up to but without one. Rounding can make it one, and
then it is drawn again. -/
def unit : Nat → StateM Wyrand Float
  | 0 => pure 0
  | tries + 1 => do
    let w ← word
    let x := (w >>> 1).toFloat.scaleB (-63)
    if x < 1 then pure x else unit tries

/-- Draws again as long as the lower half of the product is among the few
that would favor small numbers. -/
def redraw (n least : Nat) : Nat → UInt64 → StateM Wyrand Nat
  | 0, _ => pure 0
  | tries + 1, w =>
    let product := w.toNat * n
    if product % wordSize < least then do
      let w ← word
      redraw n least tries w
    else pure (product / wordSize)

/-- A number below the given one: the upper half of the product with a word. -/
def below (n : Nat) : StateM Wyrand Nat := do
  let w ← word
  redraw n ((wordSize - n) % n) period w

def source : Source Wyrand where
  chance p := do return decide ((← unit period) < p)
  coin := do return (← word) % 2 == 0
  below := below

end Wyrand

end Stepwise.Random
