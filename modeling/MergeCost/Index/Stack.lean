import MergeCost.Index.BTree
import MergeCost.Index.Merging

/-!
Indexes as they are built: a B+tree, wrapped any number of times, with the machine that it runs on.
-/

namespace MergeCost

/-- A B+tree that has been wrapped so many times. -/
def Stack (τ : Type) : Nat → Type
  | 0 => BTree τ
  | depth + 1 => Merging τ (Stack τ depth)

instance Stack.entryStore {τ : Type} [Scalar τ] : (depth : Nat) → EntryStore τ (Stack τ depth)
  | 0 => inferInstanceAs (EntryStore τ (BTree τ))
  | depth + 1 =>
      have := Stack.entryStore (τ := τ) depth
      inferInstanceAs (EntryStore τ (Merging τ (Stack τ depth)))

/-- An index with the disk that it owns and the log of its run. -/
structure Index (τ : Type) where
  depth : Nat
  stack : Stack τ depth
  machine : Machine τ

namespace Index

variable {τ : Type}

def device (index : Index τ) : Device τ := index.machine.disk.device

variable [Scalar τ]

def name (index : Index τ) : String := EntryStore.name index.stack

def entries (index : Index τ) : Nat := EntryStore.entries index.stack

def recordSize (index : Index τ) : Nat := EntryStore.recordSize index.stack

def ledger (index : Index τ) : OperationLedger τ := EntryStore.ledger index.stack

/-- An empty B+tree on a disk. -/
def tree (disk : Disk τ) (keySize dataSize nodeSize : Nat) : Except (Error τ) (Index τ) := do
  let tree ← BTree.create keySize dataSize nodeSize
  return ⟨0, tree, .create disk⟩

/-- Wraps an index together with a cold tier, and reports it. -/
def wrap (variant : MergingVariant) (index : Index τ) (cold : ColdTier τ) : Index τ :=
  let merging := Merging.create variant index.stack cold
  ⟨index.depth + 1, merging, index.machine.emit (merging.creation index.device)⟩

/-- Partitions of cold entries, as many as there are to start with. -/
def partitions (index : Index τ) (partitionSize startingEntries : Nat)
    (invalidation : Invalidation) : Except (Error τ) PartitionStore :=
  PartitionStore.create startingEntries index.recordSize partitionSize invalidation

def eager (index : Index τ) (partitionSize startingEntries : Nat) : Except (Error τ) (Index τ) := do
  let store ← index.partitions partitionSize startingEntries .blockRewrite
  return index.wrap .eager (.plain store)

def deferred (index : Index τ) (partitionSize startingEntries : Nat)
    (policy : ReorganizationPolicy τ) : Except (Error τ) (Index τ) := do
  let store ← index.partitions partitionSize startingEntries .blockRewrite
  let grouped ← GroupedStore.create store index.device.blockSize policy
  return index.wrap .deferred (.grouped grouped)

/-- Only a byte-addressable device can invalidate in place. -/
def inPlace (index : Index τ) (partitionSize startingEntries : Nat) :
    Except (Error τ) (Index τ) := do
  if index.device.isByteAddressable then
    let store ← index.partitions partitionSize startingEntries .inPlace
    return index.wrap .inPlace (.plain store)
  else throw (.config (.notByteAddressable index.device.name))

/-- Runs on the index and its machine. -/
def perform {α : Type} (index : Index τ) (action : Sim τ (Stack τ index.depth) α) :
    Except Fault (Except (Error τ) α × Index τ) := do
  let (result, world) ← action.outcome ⟨index.stack, index.machine⟩
  return (result, ⟨index.depth, world.store, world.machine⟩)

end Index

end MergeCost
