/-!
The pieces of cold data: partitions of entries, and erase blocks that hold several partitions.
-/

namespace MergeCost

/-- A run of neighbouring entries, of which some may already have left. -/
structure Partition where
  capacity : Nat
  remaining : Nat
deriving Repr, DecidableEq

namespace Partition

def full (capacity : Nat) : Partition := ⟨capacity, capacity⟩

def isEmpty (partition : Partition) : Bool := partition.remaining = 0

/-- Takes entries out, as many as there are, and gives their number. -/
def take (partition : Partition) (entries : Nat) : Nat × Partition :=
  let taken := min entries partition.remaining
  (taken, { partition with remaining := partition.remaining - taken })

end Partition

/-- Partitions that share an erase block of the device. Entries that have left stay in the block as
stale bytes until the block is reorganized. -/
structure EraseBlock where
  capacity : Nat
  valid : Nat
  stale : Nat
  partitions : List Nat
deriving Repr, DecidableEq

namespace EraseBlock

def create (capacity : Nat) (partitions : List Nat) (valid : Nat) : EraseBlock :=
  ⟨capacity, valid, 0, partitions⟩

/-- Makes bytes stale, as many as are valid. -/
def invalidate (block : EraseBlock) (bytes : Nat) : EraseBlock :=
  let bytes := min bytes block.valid
  { block with valid := block.valid - bytes, stale := block.stale + bytes }

theorem invalidate_bytes (block : EraseBlock) (bytes : Nat) :
    (block.invalidate bytes).valid + (block.invalidate bytes).stale =
      block.valid + block.stale := by
  simp only [invalidate]
  omega

@[simp] theorem invalidate_partitions (block : EraseBlock) (bytes : Nat) :
    (block.invalidate bytes).partitions = block.partitions := rfl

end EraseBlock

end MergeCost
