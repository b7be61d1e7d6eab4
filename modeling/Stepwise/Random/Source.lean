-- Where random decisions come from. A generator is written against any
-- source, so what holds of its results holds for every outcome of the draws.

namespace Stepwise.Random

/-- The draws that generators make, from a state of some type. -/
structure Source (σ : Type) where
  /-- True with the given probability. -/
  chance : Float → StateM σ Bool
  /-- True with probability one half. -/
  coin : StateM σ Bool
  /-- A number less than the given one, which is not zero. -/
  below : Nat → StateM σ Nat

namespace Source

variable {σ α : Type}

/-- A number from a range with both its ends. -/
def between (src : Source σ) (low high : Nat) : StateM σ Nat := do
  return low + (← src.below (high - low + 1))

/-- The first candidate that a chance falls to. -/
def firstHit (src : Source σ) (p : Float) : List α → StateM σ (Option α)
  | [] => pure none
  | x :: xs => do
    if ← src.chance p then pure (some x) else src.firstHit p xs

/-- Keeps each element by the toss of a coin. -/
def someOf (src : Source σ) : List α → StateM σ (List α)
  | [] => pure []
  | x :: xs => do
    let keep ← src.coin
    let rest ← src.someOf xs
    pure (if keep then x :: rest else rest)

end Source

/-- The results of so many draws, in order. -/
def times {σ α : Type} : Nat → StateM σ α → StateM σ (List α)
  | 0, _ => pure []
  | n + 1, draw => do
    let x ← draw
    let xs ← times n draw
    pure (x :: xs)

end Stepwise.Random
