import MergeCost.Index.EntryStore

/-!
The cost of a B+tree. A lookup reads one node on each level; an update also replaces the leaf. Only
the number of entries is kept, and the levels are computed from it.
-/

namespace MergeCost

theorem unitsFor_lt {amount unit : Nat} (many : 1 < amount) (large : 2 ≤ unit) :
    unitsFor amount unit < amount := by
  have fits : amount ≤ (amount - 1) * unit := by
    have : (amount - 1) * 2 ≤ (amount - 1) * unit := Nat.mul_le_mul_left _ large
    omega
  have := (unitsFor_le_iff (by omega : 0 < unit)).mpr fits
  omega

structure BTree (τ : Type) where
  keySize : Nat
  dataSize : Nat
  nodeSize : Nat
  entries : Nat
  ledger : OperationLedger τ
deriving Repr

namespace BTree

variable {τ : Type}

def recordSize (tree : BTree τ) : Nat := tree.keySize + tree.dataSize

/-- The number of slots in a node. -/
def fanout (tree : BTree τ) : Nat := max (tree.nodeSize / tree.recordSize) 2

theorem two_le_fanout (tree : BTree τ) : 2 ≤ tree.fanout := Nat.le_max_right ..

/-- Climbs from a level of so many nodes to the root, and counts the levels on the way. -/
def climbHeight (fanout : Nat) (branching : 2 ≤ fanout) (nodes height : Nat) : Nat :=
  if many : 1 < nodes then
    have := unitsFor_lt many branching
    climbHeight fanout branching (unitsFor nodes fanout) (height + 1)
  else height
termination_by nodes

/-- The number of levels of a tree of so many entries; an empty tree has none. -/
def heightFor (tree : BTree τ) (entries : Nat) : Nat :=
  if entries = 0 then 0
  else climbHeight tree.fanout tree.two_le_fanout (unitsFor entries tree.fanout) 1

def height (tree : BTree τ) : Nat := tree.heightFor tree.entries

/-- Climbs from a level of so many nodes to the root, and adds the nodes of each further level to a
total. -/
def climbNodes (fanout : Nat) (branching : 2 ≤ fanout) (level total : Nat) : Nat :=
  if many : 1 < level then
    have := unitsFor_lt many branching
    climbNodes fanout branching (unitsFor level fanout) (total + unitsFor level fanout)
  else total
termination_by level

/-- The number of nodes of a tree of so many entries. -/
def nodesFor (tree : BTree τ) (entries : Nat) : Nat :=
  let leaves := unitsFor entries tree.fanout
  climbNodes tree.fanout tree.two_le_fanout leaves leaves

def climbNodesInWords (fanout : Nat) (branching : 2 ≤ fanout) (level total : Nat) :
    Except Fault Nat :=
  if many : 1 < level then do
    have := unitsFor_lt many branching
    let total ← Word.add total (unitsFor level fanout)
    climbNodesInWords fanout branching (unitsFor level fanout) total
  else .ok total
termination_by level

def nodesForInWords (tree : BTree τ) (entries : Nat) : Except Fault Nat :=
  let leaves := unitsFor entries tree.fanout
  climbNodesInWords tree.fanout tree.two_le_fanout leaves leaves

variable [Scalar τ]

def create (keySize dataSize nodeSize : Nat) : Except (Error τ) (BTree τ) :=
  if keySize + dataSize = 0 then .error (.config .emptyRecord)
  else if nodeSize = 0 then .error (.config .emptyNode)
  else .ok ⟨keySize, dataSize, nodeSize, 0, .empty⟩

def record (request : Request) (time : τ) : Sim τ (BTree τ) Unit :=
  Sim.update fun tree => { tree with ledger := tree.ledger.record (.request request) time 1 }

/-- Reads one node on each of so many levels. -/
def descend (levels : Nat) : Sim τ (BTree τ) τ := do
  let tree ← Sim.store
  Sim.addTimes (Sim.access .read tree.nodeSize) levels (-Scalar.zero)

/-- Descends to a leaf and replaces it. -/
def updateLeaf : Sim τ (BTree τ) τ := do
  let tree ← Sim.store
  let time ← descend tree.height
  return time + (← Sim.access .overwrite tree.nodeSize)

def setEntries (change : Nat → Nat) : Sim τ (BTree τ) Unit :=
  Sim.update fun tree => { tree with entries := change tree.entries }

/-- Inserts the entries one by one, into a tree that grows meanwhile. -/
def insert (entries : Nat) : Sim τ (BTree τ) τ := do
  if entries = 0 then return Scalar.zero
  let time ← Sim.addTimes (do
    let time ← updateLeaf
    setEntries (· + 1)
    return time) entries Scalar.zero
  record .insert time
  return time

/-- Writes all nodes of a tree over the entries in one go. -/
def bulkload (entries : Nat) : Sim τ (BTree τ) τ := do
  if entries = 0 then return Scalar.zero
  let tree ← Sim.store
  let time ← Sim.access .write (tree.nodesFor entries * tree.nodeSize)
  setEntries (· + entries)
  record .bulkload time
  return time

/-- A bulkload in words adds up all nodes and takes their bytes first. -/
def bulkloadInWords (entries : Nat) : Sim τ (BTree τ) τ := do
  if entries = 0 then return Scalar.zero
  let tree ← Sim.store
  let bytes ← Sim.orCrash do Word.mul (← tree.nodesForInWords entries) tree.nodeSize
  let time ← Sim.inWords (Sim.access .write bytes)
  let _ ← Sim.orCrash (Word.add tree.entries entries)
  setEntries (· + entries)
  record .bulkload time
  return time

/-- Descends to each entry, and does all of it again for each repeat. -/
def findPoint (entries repeats : Nat) : Sim τ (BTree τ) τ := do
  if entries = 0 ∨ repeats = 0 then return Scalar.zero
  let height := (← Sim.store).height
  let time ←
    if height = 0 then pure Scalar.zero
    else Sim.addTimes (descend height) (repeats * entries) Scalar.zero
  record .findPoint time
  return time

/-- Descends to the level above the leaves and reads the leaves of the range in one go. -/
def findRange (entries repeats : Nat) : Sim τ (BTree τ) τ := do
  let tree ← Sim.store
  let entries := min entries tree.entries
  if entries = 0 ∨ repeats = 0 then return Scalar.zero
  let leafBytes := unitsFor entries tree.fanout * tree.nodeSize
  let time ← Sim.iterate (fun total => do
    let inner ← descend (tree.height - 1)
    let leaves ← Sim.access .read leafBytes
    return total + inner + leaves) repeats Scalar.zero
  record .findRange time
  return time

/-- Deletes the entries one by one, as many as there are. -/
def delete (entries : Nat) : Sim τ (BTree τ) τ := do
  let entries := min entries (← Sim.store).entries
  if entries = 0 then return Scalar.zero
  let time ← Sim.addTimes (do
    let time ← updateLeaf
    setEntries (· - 1)
    return time) entries Scalar.zero
  record .delete time
  return time

instance : EntryStore τ (BTree τ) where
  name _ := "BTree"
  entries := entries
  keySize := keySize
  dataSize := dataSize
  canBulkload _ := true
  ledger := ledger
  insert := insert
  bulkload := bulkload
  find
    | .point => findPoint
    | .range => findRange
  delete := delete

end BTree

end MergeCost
