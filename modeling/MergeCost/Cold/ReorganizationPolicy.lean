import MergeCost.Error
import MergeCost.Scalar

/-!
When erase blocks are reorganized, and how many at a time.
-/

namespace MergeCost

structure ReorganizationPolicy (τ : Type) where
  /-- The most blocks that one pass takes. -/
  maxBlocks : Nat
  /-- The number of blocks of low usage that makes a pass worth trying. -/
  triggerBlocks : Nat
  /-- A block of less usage than this is of low usage. -/
  usageThreshold : τ
deriving Repr, BEq

namespace ReorganizationPolicy

variable {τ : Type} [Scalar τ]

def validate (policy : ReorganizationPolicy τ) : Except (Error τ) Unit :=
  if policy.maxBlocks = 0 then .error (.config .noBlocksPerPass)
  else if policy.triggerBlocks = 0 then .error (.config .noTrigger)
  else if Scalar.lt Scalar.zero policy.usageThreshold
      && Scalar.le policy.usageThreshold (Scalar.ofNat 1) then .ok ()
  else .error (.config (.usageThreshold policy.usageThreshold))

def create (maxBlocks triggerBlocks : Nat) (usageThreshold : τ) :
    Except (Error τ) (ReorganizationPolicy τ) := do
  let policy := ⟨maxBlocks, triggerBlocks, usageThreshold⟩
  policy.validate
  return policy

end ReorganizationPolicy

end MergeCost
