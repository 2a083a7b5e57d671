import MergeCost.Double

/-!
The numbers in which simulated seconds and shares are measured.

Everything that computes a cost is written over a type with these operations. Running a simulation
takes doubles; reasoning about sums of costs can take exact rationals instead.
-/

namespace MergeCost

/-- Arithmetic of costs and shares. No law is assumed: addition need not even be associative. -/
class Scalar (τ : Type) extends Add τ, Sub τ, Mul τ, Div τ, Neg τ, BEq τ where
  /-- The value nearest to a count. -/
  ofNat : Nat → τ
  /-- The largest count not above a value; 0 where there is none. -/
  floor : τ → Nat
  /-- The count nearest to a value, halves away from zero; 0 below zero. -/
  round : τ → Nat
  lt : τ → τ → Bool
  le : τ → τ → Bool
  isFinite : τ → Bool
  /-- A total order, which also places the values that `le` does not compare. -/
  precedes : τ → τ → Bool

namespace Scalar

variable {τ : Type} [Scalar τ]

def zero : τ := ofNat 0

/-- Adds from left to right, starting at negative zero, the neutral element of rounded addition. -/
def sum (terms : List τ) : τ := terms.foldl (· + ·) (-zero)

/-- Whether a value is finite and not below zero, as a duration has to be. -/
def isDuration (value : τ) : Bool := isFinite value && !lt value zero

end Scalar

instance : Scalar Float where
  ofNat := Double.ofNat
  floor := Double.floor
  round := Double.round
  lt left right := decide (left < right)
  le left right := decide (left ≤ right)
  isFinite := Float.isFinite
  precedes left right := decide (Double.rank left ≤ Double.rank right)

instance : Scalar Rat where
  ofNat count := count
  floor value := value.floor.toNat
  round value := (value + 1 / 2).floor.toNat
  lt left right := decide (left < right)
  le left right := decide (left ≤ right)
  isFinite _ := true
  precedes left right := decide (left ≤ right)

end MergeCost
