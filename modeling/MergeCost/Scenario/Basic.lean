import MergeCost.Index.Stack

/-!
Scenarios: the dimensions of a simulation, checked and built.
-/

namespace MergeCost

structure Scenario (τ : Type) where
  keySize : Nat
  dataSize : Nat
  nodeSize : Nat
  /-- In bytes; 0 stands for a size that suits the device. -/
  partitionSize : Nat
  startingEntries : Nat
  memory : DeviceProfile τ
  /-- Needed only to put invalidation off. -/
  reorganization : Option (ReorganizationPolicy τ)
deriving Repr, BEq

namespace Scenario

def standard : Scenario Float where
  keySize := 8
  dataSize := 64
  nodeSize := 4096
  partitionSize := 0
  startingEntries := 1000000
  memory := .ssd .standard
  reorganization := none

variable {τ : Type}

def recordSize (scenario : Scenario τ) : Nat := scenario.keySize + scenario.dataSize

/-- The partition size that is used: by default an erase block, or where there is none a page, but
at least a record. -/
def effectivePartitionSize (scenario : Scenario τ) : Nat :=
  if scenario.partitionSize ≠ 0 then scenario.partitionSize
  else match scenario.memory with
    | .ssd profile => profile.blockSize
    | .pcm profile => max profile.pageSize scenario.recordSize

variable [Scalar τ]

def validate (scenario : Scenario τ) : Except (Error τ) Unit := do
  if scenario.recordSize = 0 then throw (.config .noKeyAndData)
  if scenario.nodeSize < scenario.recordSize then
    throw (.config (.nodeBelowRecord scenario.nodeSize scenario.recordSize))
  if scenario.effectivePartitionSize < scenario.recordSize then
    throw (.config
      (.partitionBelowRecord scenario.effectivePartitionSize scenario.recordSize))
  scenario.memory.validate
  match scenario.reorganization with
  | none => return ()
  | some policy => policy.validate

def buildDisk (scenario : Scenario τ) : Except (Error τ) (Disk τ) :=
  scenario.memory.build.map Disk.create

def buildTree (scenario : Scenario τ) : Except (Error τ) (Index τ) := do
  scenario.validate
  let disk ← scenario.buildDisk
  Index.tree disk scenario.keySize scenario.dataSize scenario.nodeSize

/-- Builds an index over an empty B+tree, with all entries cold. -/
def buildMerging (scenario : Scenario τ) (variant : MergingVariant) :
    Except (Error τ) (Index τ) := do
  let tree ← scenario.buildTree
  let partitionSize := scenario.effectivePartitionSize
  match variant, scenario.reorganization with
  | .eager, _ => tree.eager partitionSize scenario.startingEntries
  | .inPlace, _ => tree.inPlace partitionSize scenario.startingEntries
  | .deferred, none => throw (.config .noReorganization)
  | .deferred, some policy => tree.deferred partitionSize scenario.startingEntries policy

end Scenario

end MergeCost
