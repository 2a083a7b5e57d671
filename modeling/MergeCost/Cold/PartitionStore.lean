import MergeCost.Cold.Partition
import MergeCost.Cold.Located
import MergeCost.Index.EntryStore

/-!
Cold entries in partitions of one size.

A request is first located. Single entries are dealt round robin, one from each partition that
still has some; a range is one run through neighbouring partitions. Each kind of lookup goes on
where the last one of its kind ended. Touching what was located then scans each partition, takes
the entries out, and invalidates them on the device.
-/

namespace MergeCost

/-- How entries that leave are invalidated on the device. -/
inductive Invalidation where
  /-- The first erase block of the partition is replaced by one without them. -/
  | blockRewrite
  /-- Their own bytes are read and replaced. -/
  | inPlace
deriving Repr, DecidableEq

structure PartitionStore where
  recordSize : Nat
  entriesPerPartition : Nat
  partitions : Array Partition
  invalidation : Invalidation
  pointCursor : Nat
  rangeCursor : Nat
deriving Repr, DecidableEq

namespace PartitionStore

/-- Full partitions over all entries; the last one may be smaller. -/
def layOut (total perPartition : Nat) : Array Partition :=
  Array.ofFn fun index : Fin (unitsFor total perPartition) =>
    Partition.full (min perPartition (total - index * perPartition))

def create {τ : Type} (total recordSize partitionSize : Nat) (invalidation : Invalidation) :
    Except (Error τ) PartitionStore :=
  if recordSize = 0 then .error (.config .emptyRecord)
  else
    let perPartition := partitionSize / recordSize
    if perPartition = 0 then .error (.config (.partitionBelowRecord partitionSize recordSize))
    else .ok ⟨recordSize, perPartition, layOut total perPartition, invalidation, 0, 0⟩

/-- The number of entries that have not left. -/
def entries (store : PartitionStore) : Nat :=
  total (store.partitions.toList.map Partition.remaining)

/-- The size of a full partition in bytes. -/
def partitionBytes (store : PartitionStore) : Nat := store.entriesPerPartition * store.recordSize

def remaining (store : PartitionStore) (partition : Nat) : Nat :=
  (store.partitions[partition]?.map Partition.remaining).getD 0

def remainingBytes (store : PartitionStore) (partition : Nat) : Nat :=
  store.remaining partition * store.recordSize

/-! Dealing single entries -/

/-- A deal under way: the partition that is next, the slot in the list of each partition that has
given entries, and the list. -/
structure Listing where
  cursor : Nat
  slots : Array (Option Nat)
  located : Array Located

/-- What has been listed of a partition so far. -/
def Listing.planned (listing : Listing) (partition : Nat) : Nat :=
  match listing.slots.getD partition none with
  | none => 0
  | some slot => (listing.located[slot]?.map Located.entries).getD 0

/-- The first partition among the next so many that has more than is listed of it. The search breaks
off where there is no partition, and after as many turns as it may take. -/
def Listing.nextGiver (listing : Listing) (store : PartitionStore) : Nat → Nat → Except Fault Nat
  | 0, _ => .error .nothingLeftToLocate
  | turns + 1, cursor =>
      match store.partitions[cursor]? with
      | none => .error (.partitionOutOfRange cursor)
      | some partition =>
          if listing.planned cursor < partition.remaining then .ok cursor
          else listing.nextGiver store turns ((cursor + 1) % store.partitions.size)

/-- Lists one entry more of a partition, in its slot or in a new one at the end. -/
def Listing.give (listing : Listing) (partition : Nat) : Listing :=
  let cursor := (partition + 1) % listing.slots.size
  match listing.slots.getD partition none with
  | none =>
      { cursor
        slots := listing.slots.setIfInBounds partition (some listing.located.size)
        located := listing.located.push ⟨partition, 1⟩ }
  | some slot =>
      { listing with
        cursor
        located := listing.located.modify slot fun part =>
          { part with entries := part.entries + 1 } }

def Listing.run (store : PartitionStore) : Nat → Listing → Except Fault Listing
  | 0, listing => .ok listing
  | entries + 1, listing => do
      let partition ← listing.nextGiver store store.partitions.size listing.cursor
      Listing.run store entries (listing.give partition)

/-- Before the first entry nothing has a slot. -/
def unlisted (store : PartitionStore) : Listing :=
  ⟨store.pointCursor, Array.replicate store.partitions.size none, #[]⟩

/-- Deals so many entries, and lists the partitions in the order of their first entry. -/
def locatePoint (store : PartitionStore) (entries : Nat) :
    Except Fault (List Located × PartitionStore) := do
  let listing ← Listing.run store entries store.unlisted
  return (listing.located.toList, { store with pointCursor := listing.cursor })

/-! Following a range -/

/-- A range under way: the partition that is next, the entries that are still wanted, and what has
been located, the last part first. -/
structure Walk where
  cursor : Nat
  wanted : Nat
  located : List Located

/-- Takes what is wanted from the partition at the cursor, and goes on to the next one if that was
all it had. -/
def Walk.step (store : PartitionStore) (walk : Walk) : Except Fault Walk :=
  match store.partitions[walk.cursor]? with
  | none => .error (.partitionOutOfRange walk.cursor)
  | some partition =>
      let taken := min partition.remaining walk.wanted
      .ok {
        cursor :=
          if taken = partition.remaining then (walk.cursor + 1) % store.partitions.size
          else walk.cursor
        wanted := walk.wanted - taken
        located := if taken = 0 then walk.located else ⟨walk.cursor, taken⟩ :: walk.located }

def Walk.run (store : PartitionStore) : Nat → Walk → Except Fault Walk
  | 0, walk => if walk.wanted = 0 then .ok walk else .error .nothingLeftToLocate
  | visits + 1, walk =>
      if walk.wanted = 0 then .ok walk
      else do Walk.run store visits (← walk.step store)

def locateRange (store : PartitionStore) (entries : Nat) :
    Except Fault (List Located × PartitionStore) := do
  let walk ← Walk.run store store.partitions.size ⟨store.rangeCursor, entries, []⟩
  return (walk.located.reverse, { store with rangeCursor := walk.cursor })

/-- Locates so many entries, or all there are. -/
def locate (store : PartitionStore) (lookup : Lookup) (entries : Nat) :
    Except Fault (List Located × PartitionStore) :=
  let entries := min entries store.entries
  if entries = 0 then .ok ([], store)
  else match lookup with
    | .point => store.locatePoint entries
    | .range => store.locateRange entries

/-! Touching -/

variable {τ : Type} [Scalar τ]

/-- The bytes that a partition still holds; a partition that does not exist breaks the run off. -/
def bytesOf (partition : Nat) : Sim τ PartitionStore Nat := do
  let store ← Sim.store
  match store.partitions[partition]? with
  | none => Sim.crash (.partitionOutOfRange partition)
  | some found => return found.remaining * store.recordSize

def load (partition : Nat) : Sim τ PartitionStore τ := do
  Sim.access .read (← bytesOf partition)

/-- Takes entries out of a partition and gives their number. -/
def take (partition entries : Nat) : Sim τ PartitionStore Nat := do
  let store ← Sim.store
  match store.partitions[partition]? with
  | none => Sim.crash (.partitionOutOfRange partition)
  | some found =>
      let (taken, rest) := found.take entries
      Sim.update fun store =>
        { store with partitions := store.partitions.setIfInBounds partition rest }
      return taken

def invalidate (located : Located) : Sim τ PartitionStore τ := do
  let store ← Sim.store
  let bytes := located.entries * store.recordSize
  match store.invalidation with
  | .blockRewrite =>
      let valid ← bytesOf located.partition
      let block := (← Sim.disk).device.blockSize
      Sim.access .overwrite ((if block = 0 then valid else min block valid) - bytes)
  | .inPlace =>
      let readTime ← Sim.access .read bytes
      let overwriteTime ← Sim.access .overwrite bytes
      return readTime + overwriteTime

/-- Touches one partition. -/
def touchOne (cost : TouchCost τ) (located : Located) : Sim τ PartitionStore (TouchCost τ) := do
  let invalidation ← invalidate located
  let loading ← load located.partition
  let taken ← take located.partition located.entries
  return { cost with
    invalidationTime := cost.invalidationTime + invalidation
    loadingTime := cost.loadingTime + loading
    entries := cost.entries + taken }

/-- Touches the partitions in order. The whole touch counts as one operation and is reported. -/
def touch (located : List Located) : Sim τ PartitionStore (TouchCost τ) := do
  if located.isEmpty then return .empty
  let cost ← located.foldlM touchOne .empty
  Sim.emit (.touched located.length cost.entries cost.invalidationTime cost.loadingTime)
  return { cost with invalidations := 1, loadings := 1 }

/-! In words -/

/-- Touches one partition in words. It may be asked for more than it holds, and the bytes of that
are taken first. -/
def touchOneInWords (cost : TouchCost τ) (located : Located) :
    Sim τ PartitionStore (TouchCost τ) := do
  let store ← Sim.store
  let _ ← Sim.orCrash (Word.mul located.entries store.recordSize)
  Sim.inWords (touchOne cost located)

def touchInWords (located : List Located) : Sim τ PartitionStore (TouchCost τ) := do
  if located.isEmpty then return .empty
  let cost ← located.foldlM touchOneInWords .empty
  Sim.emit (.touched located.length cost.entries cost.invalidationTime cost.loadingTime)
  return { cost with invalidations := 1, loadings := 1 }

end PartitionStore

end MergeCost
