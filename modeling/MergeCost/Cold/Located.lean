import MergeCost.Scalar

/-!
Where the entries of a request are, and what it costs to touch them there.
-/

namespace MergeCost

/-- A number of entries within one partition. -/
structure Located where
  partition : Nat
  entries : Nat
deriving Repr, DecidableEq

/-- The cost of a touch, in its two parts, and the number of entries that left their partitions. -/
structure TouchCost (τ : Type) where
  invalidationTime : τ
  invalidations : Nat
  loadingTime : τ
  loadings : Nat
  entries : Nat
deriving Repr

namespace TouchCost

variable {τ : Type} [Scalar τ]

def empty : TouchCost τ := ⟨Scalar.zero, 0, Scalar.zero, 0, 0⟩

def time (cost : TouchCost τ) : τ := cost.invalidationTime + cost.loadingTime

end TouchCost

end MergeCost
