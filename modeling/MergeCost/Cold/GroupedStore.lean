import MergeCost.Cold.PartitionStore
import MergeCost.Cold.ReorganizationPolicy
import MergeCost.Cold.Packing

/-!
Cold partitions grouped into erase blocks, with invalidation put off.

Entries that leave only become stale in their block. Once enough blocks are of low usage, a pass of
reorganization takes the emptiest ones, packs their partitions into fresh blocks, and frees the
rest. A pass that would free no block is not made.
-/

namespace MergeCost

structure GroupedStore (τ : Type) where
  base : PartitionStore
  policy : ReorganizationPolicy τ
  blocks : List EraseBlock
  /-- The position of the block that holds each partition; none for a partition that has been
  drained and reclaimed. -/
  holder : Array (Option Nat)
  blockCapacity : Nat
  passes : Nat
  /-- Entries that have left, but whose bytes are still in a block. -/
  staleEntries : Nat
deriving Repr, BEq

namespace GroupedStore

variable {τ : Type}

/-- The holders of so many partitions among the blocks. -/
def holders (blocks : List EraseBlock) (partitions : Nat) : Array (Option Nat) :=
  blocks.zipIdx.foldl (fun holder (block, position) =>
      block.partitions.foldl (fun holder partition =>
        holder.setIfInBounds partition (some position)) holder)
    (Array.replicate partitions none)

/-- Blocks of neighbouring partitions, a fixed number in each. -/
def group (base : PartitionStore) (perBlock capacity : Nat) : List EraseBlock :=
  let count := base.partitions.size
  (List.range (unitsFor count perBlock)).map fun position =>
    let partitions := List.range' (position * perBlock) (min perBlock (count - position * perBlock))
    .create capacity partitions (total (partitions.map base.remainingBytes))

/-- The number of partitions that fit into an erase block, or one if none does. -/
def partitionsPerBlock (base : PartitionStore) (blockSize : Nat) : Nat :=
  if blockSize = 0 then 1 else max (blockSize / base.partitionBytes) 1

variable [Scalar τ]

def create (base : PartitionStore) (blockSize : Nat) (policy : ReorganizationPolicy τ) :
    Except (Error τ) (GroupedStore τ) := do
  policy.validate
  let perBlock := partitionsPerBlock base blockSize
  let capacity := perBlock * base.partitionBytes
  let blocks := group base perBlock capacity
  return {
    base, policy, blocks
    holder := holders blocks base.partitions.size
    blockCapacity := capacity
    passes := 0
    staleEntries := 0 }

/-- The share of a block that holds entries. -/
def usage (block : EraseBlock) : τ :=
  if block.capacity = 0 then Scalar.zero
  else Scalar.ofNat block.valid / Scalar.ofNat block.capacity

/-- Marks the bytes of entries that have left as stale in the block of their partition. -/
def markStale (store : GroupedStore τ) (partition taken : Nat) : GroupedStore τ :=
  let bytes := taken * store.base.recordSize
  { store with
    blocks := match (store.holder[partition]?).join with
      | some position => store.blocks.modify position (EraseBlock.invalidate · bytes)
      | none => store.blocks
    staleEntries := store.staleEntries + taken }

/-- The blocks of low usage with their positions, the emptiest first; blocks of one usage keep
their order. -/
def candidates (store : GroupedStore τ) : List (EraseBlock × Nat) :=
  (store.blocks.zipIdx.filter fun (block, _) =>
      Scalar.lt (usage block : τ) store.policy.usageThreshold).mergeSort
    fun left right => Scalar.precedes (usage left.1 : τ) (usage right.1)

/-- Packs the partitions of some blocks that still hold entries, in the order of the partitions. -/
def repack (store : GroupedStore τ) (selected : List EraseBlock) : List Bin :=
  let moved := (selected.flatMap EraseBlock.partitions).filter (0 < store.base.remaining ·)
  Bin.pack store.blockCapacity store.base.remainingBytes (moved.mergeSort (· ≤ ·))

/-- Orders blocks by their first partition; a block without one comes last. -/
def firstBefore (left right : EraseBlock) : Bool :=
  match left.partitions.head?, right.partitions.head? with
  | _, none => true
  | none, some _ => false
  | some first, some second => first ≤ second

/-- The blocks after the selected positions have been replaced by bins. -/
def replaced (store : GroupedStore τ) (positions : List Nat) (bins : List Bin) : List EraseBlock :=
  let kept := (store.blocks.zipIdx.filter fun (_, position) => !positions.contains position).map
    Prod.fst
  let fresh := bins.map fun bin => EraseBlock.create store.blockCapacity bin.items bin.size
  (kept ++ fresh).mergeSort firstBefore

/-- What a pass would do: the blocks it takes with their positions, and the bins it fills. -/
def plan? (store : GroupedStore τ) : Option (List (EraseBlock × Nat) × List Bin) :=
  let candidates := store.candidates
  if candidates.length < store.policy.triggerBlocks then none
  else
    let selected := candidates.take store.policy.maxBlocks
    let bins := store.repack (selected.map Prod.fst)
    if bins.length < selected.length then some (selected, bins) else none

def staleEntriesOf (store : GroupedStore τ) (selected : List EraseBlock) : Nat :=
  total (selected.map fun block => block.stale / store.base.recordSize)

/-- Reads the live bytes of the selected blocks, writes them into fresh blocks, and gives the time
that it takes. -/
def reorganize (selected : List (EraseBlock × Nat)) (bins : List Bin) :
    Sim τ (GroupedStore τ) τ := do
  let store ← Sim.store
  let taken := selected.map Prod.fst
  let liveBytes := total (taken.map EraseBlock.valid)
  let reclaimed := store.staleEntriesOf taken
  let readTime ← Sim.access .read liveBytes
  let overwriteTime ← Sim.access .overwrite liveBytes
  let time := readTime + overwriteTime
  let blocks := store.replaced (selected.map Prod.snd) bins
  if store.staleEntries < reclaimed then Sim.crash .staleUnderflow
  Sim.update fun store => { store with
    blocks
    holder := holders blocks store.base.partitions.size
    passes := store.passes + 1
    staleEntries := store.staleEntries - reclaimed }
  Sim.emit (.reorganized selected.length store.blocks.length blocks.length liveBytes reclaimed time)
  return time

def onBase {α : Type} (action : Sim τ PartitionStore α) : Sim τ (GroupedStore τ) α :=
  Sim.zoom base (fun base store => { store with base }) action

/-- Touches one partition: its entries leave, but are only marked as stale. -/
def touchOne (cost : TouchCost τ) (located : Located) : Sim τ (GroupedStore τ) (TouchCost τ) := do
  let loading ← onBase (PartitionStore.load located.partition)
  let taken ← onBase (PartitionStore.take located.partition located.entries)
  Sim.update (markStale · located.partition taken)
  return { cost with
    loadingTime := cost.loadingTime + loading
    entries := cost.entries + taken }

/-- Touches the partitions in order, and reorganizes afterwards if there is need. The time of a
pass counts as that of the invalidation. -/
def touch (located : List Located) : Sim τ (GroupedStore τ) (TouchCost τ) := do
  if located.isEmpty then return .empty
  let cost ← located.foldlM touchOne .empty
  let cost := { cost with loadings := 1 }
  match (← Sim.store).plan? with
  | none => return cost
  | some (selected, bins) =>
      let time ← reorganize selected bins
      return { cost with
        invalidationTime := cost.invalidationTime + time
        invalidations := 1 }

/-! In words -/

def repackInWords (store : GroupedStore τ) (selected : List EraseBlock) :
    Except Fault (List Bin) :=
  let moved := (selected.flatMap EraseBlock.partitions).filter (0 < store.base.remaining ·)
  Bin.packInWords store.blockCapacity store.base.remainingBytes (moved.mergeSort (· ≤ ·))

def planInWords (store : GroupedStore τ) :
    Except Fault (Option (List (EraseBlock × Nat) × List Bin)) := do
  let candidates := store.candidates
  if candidates.length < store.policy.triggerBlocks then return none
  let selected := candidates.take store.policy.maxBlocks
  let bins ← store.repackInWords (selected.map Prod.fst)
  return if bins.length < selected.length then some (selected, bins) else none

def reorganizeInWords (selected : List (EraseBlock × Nat)) (bins : List Bin) :
    Sim τ (GroupedStore τ) τ := do
  let _ ← Sim.orCrash (Word.sum ((selected.map Prod.fst).map EraseBlock.valid))
  Sim.inWords (reorganize selected bins)

/-- What a touch ends with: a pass, if the blocks give reason for one. -/
def finishInWords (cost : TouchCost τ) : Sim τ (GroupedStore τ) (TouchCost τ) := do
  match ← Sim.orCrash (← Sim.store).planInWords with
  | none => return cost
  | some (selected, bins) =>
      let time ← reorganizeInWords selected bins
      return { cost with
        invalidationTime := cost.invalidationTime + time
        invalidations := 1 }

def touchInWords (located : List Located) : Sim τ (GroupedStore τ) (TouchCost τ) := do
  if located.isEmpty then return .empty
  let cost ← located.foldlM (fun cost part => Sim.inWords (touchOne cost part)) .empty
  finishInWords { cost with loadings := 1 }

end GroupedStore

end MergeCost
