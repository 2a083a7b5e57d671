import MergeCost.Index.BTree
import MergeCost.Simulation.Transfers
import Mathlib.Data.List.Flatten

/-!
The transfers of B+trees. They are decided by the sizes and the number of entries of a tree; neither
its ledger nor the device has a part in them.
-/

namespace MergeCost

open Sim

namespace BTree

variable {τ : Type}

def readNode (tree : BTree τ) : Transfer := ⟨.read, tree.nodeSize⟩

/-- What it takes to update a leaf when the tree has so many entries. -/
def updating (tree : BTree τ) (entries : Nat) : List Transfer :=
  List.replicate (tree.heightFor entries) tree.readNode ++ [⟨.overwrite, tree.nodeSize⟩]

/-- What it takes to insert so many entries. -/
def inserting (tree : BTree τ) (entries : Nat) : List Transfer :=
  (List.range' tree.entries entries).flatMap tree.updating

/-- What it takes to find entries once. -/
def reading (tree : BTree τ) : Lookup → Nat → List Transfer
  | .point, entries => List.replicate (entries * tree.height) tree.readNode
  | .range, entries =>
      let entries := min entries tree.entries
      if entries = 0 then []
      else List.replicate (tree.height - 1) tree.readNode ++
        [⟨.read, unitsFor entries tree.fanout * tree.nodeSize⟩]

def readings (tree : BTree τ) (lookup : Lookup) (entries repeats : Nat) : List Transfer :=
  (List.replicate repeats (tree.reading lookup entries)).flatten

theorem readings_reads (tree : BTree τ) (lookup : Lookup) (entries repeats : Nat) :
    ∀ transfer ∈ tree.readings lookup entries repeats, transfer.kind = .read := by
  intro transfer member
  obtain ⟨_, repeated, member⟩ := List.mem_flatten.mp member
  obtain rfl := List.eq_of_mem_replicate repeated
  cases lookup with
  | point =>
      obtain rfl := List.eq_of_mem_replicate member
      rfl
  | range =>
      simp only [reading] at member
      split at member
      · contradiction
      · rcases List.mem_append.mp member with node | leaves
        · obtain rfl := List.eq_of_mem_replicate node
          rfl
        · obtain rfl := List.mem_singleton.mp leaves
          rfl

theorem readings_sublist (tree : BTree τ) (lookup : Lookup) (entries : Nat) {fewer more : Nat}
    (le : fewer ≤ more) :
    (tree.readings lookup entries fewer).Sublist (tree.readings lookup entries more) :=
  ((List.replicate_sublist_replicate _).mpr le).flatten

theorem readings_zero (tree : BTree τ) (lookup : Lookup) (repeats : Nat) :
    tree.readings lookup 0 repeats = [] := by
  have none : tree.reading lookup 0 = [] := by
    cases lookup with
    | point => simp only [reading, Nat.zero_mul, List.replicate_zero]
    | range => simp only [reading, Nat.zero_min, if_true]
  rw [readings, none, List.flatten_replicate_nil]

/-- A tree with another number of entries. -/
def withEntries (tree : BTree τ) (entries : Nat) : BTree τ := { tree with entries }

variable [Scalar τ]

theorem descend_performs (tree : BTree τ) (levels : Nat) (device : Device τ) :
    ∃ time, (descend levels).Performs tree device time tree
      (List.replicate levels tree.readNode) := by
  have node (device : Device τ) : ∃ time,
      (access .read tree.nodeSize).Performs tree device time tree [tree.readNode] :=
    ⟨_, .access _ _ _ _⟩
  obtain ⟨time, read⟩ := Performs.addTimes_same node levels (-Scalar.zero) device
  rw [List.flatten_replicate_singleton] at read
  exact ⟨time, .store_bind read⟩

theorem updateLeaf_performs (tree : BTree τ) (device : Device τ) :
    ∃ time, updateLeaf.Performs tree device time tree (tree.updating tree.entries) := by
  obtain ⟨time, descended⟩ := tree.descend_performs tree.height device
  exact ⟨_, .store_bind (descended.bind (.bind_pure (.access _ _ _ _) _))⟩

theorem updateLeaves_performs (tree : BTree τ) {change : Nat → Nat} (counts : Nat → Nat)
    (changes : ∀ position, change (counts position) = counts (position + 1))
    (count position : Nat) (total : τ) (device : Device τ) :
    ∃ time, (addTimes (do
        let time ← updateLeaf
        setEntries change
        return time) count total).Performs (tree.withEntries (counts position)) device time
      (tree.withEntries (counts (position + count)))
      ((List.range' position count).flatMap fun position => tree.updating (counts position)) := by
  have steps (position : Nat) (device : Device τ) : ∃ time, (do
      let time ← updateLeaf
      setEntries change
      return time : Sim τ (BTree τ) τ).Performs (tree.withEntries (counts position)) device time
        (tree.withEntries (counts (position + 1))) (tree.updating (counts position)) := by
    obtain ⟨time, updated⟩ := (tree.withEntries (counts position)).updateLeaf_performs device
    refine ⟨time, updated.bind_idle ?_⟩
    rw [← changes]
    exact .bind_pure (.update _ _ _) _
  exact Performs.addTimes steps count position total device

theorem close_performs (tree : BTree τ) (request : Request) (time : τ) (device : Device τ) :
    (do
      record request time
      return time : Sim τ (BTree τ) τ).Performs tree device time
        { tree with ledger := tree.ledger.record (.request request) time 1 } [] :=
  .bind_pure (.update _ _ _) _

theorem insert_performs (tree : BTree τ) (entries : Nat) (device : Device τ) :
    ∃ time ledger, (insert entries).Performs tree device time
      { tree with entries := tree.entries + entries, ledger } (tree.inserting entries) := by
  by_cases nothing : entries = 0
  · subst nothing
    exact ⟨Scalar.zero, tree.ledger, .pure _ _ _⟩
  · obtain ⟨time, updated⟩ := tree.updateLeaves_performs id (fun _ => rfl) entries tree.entries
      Scalar.zero device
    rw [insert, if_neg nothing]
    exact ⟨time, _, updated.bind_idle (close_performs _ _ _ _)⟩

/-- A tree without nodes is not searched at all. -/
theorem searchPoints_performs (tree : BTree τ) (searches : Nat) (device : Device τ) :
    ∃ time, (if tree.height = 0 then pure Scalar.zero
        else addTimes (descend tree.height) searches Scalar.zero).Performs tree device time tree
      (List.replicate (searches * tree.height) tree.readNode) := by
  by_cases flat : tree.height = 0
  · rw [if_pos flat, flat]
    exact ⟨Scalar.zero, .pure _ _ _⟩
  · rw [if_neg flat, ← List.flatten_replicate_replicate]
    exact Performs.addTimes_same (tree.descend_performs tree.height) searches Scalar.zero device

theorem findPoint_performs (tree : BTree τ) (entries repeats : Nat) (device : Device τ) :
    ∃ time ledger, (findPoint entries repeats).Performs tree device time { tree with ledger }
      (tree.readings .point entries repeats) := by
  have all : tree.readings .point entries repeats =
      List.replicate (repeats * entries * tree.height) tree.readNode := by
    rw [readings, reading, List.flatten_replicate_replicate, Nat.mul_assoc]
  rw [all, findPoint]
  by_cases nothing : entries = 0 ∨ repeats = 0
  · have none : repeats * entries = 0 := by rcases nothing with rfl | rfl <;> simp
    rw [if_pos nothing, none, Nat.zero_mul]
    exact ⟨Scalar.zero, tree.ledger, .pure _ _ _⟩
  · obtain ⟨time, searched⟩ := tree.searchPoints_performs (repeats * entries) device
    simp only [if_neg nothing, branches_bind]
    exact ⟨time, _, .store_bind (searched.bind_idle (close_performs _ _ _ _))⟩

theorem searchRange_performs (tree : BTree τ) (leafBytes repeats : Nat) (device : Device τ) :
    ∃ time, (iterate (fun total => do
        let inner ← descend (tree.height - 1)
        let leaves ← access .read leafBytes
        return total + inner + leaves) repeats Scalar.zero).Performs tree device time tree
      (List.replicate repeats
        (List.replicate (tree.height - 1) tree.readNode ++ [⟨.read, leafBytes⟩])).flatten := by
  refine Performs.iterate_same ?_ repeats Scalar.zero device
  intro total device
  obtain ⟨inner, descended⟩ := tree.descend_performs (tree.height - 1) device
  exact ⟨_, descended.bind (.bind_pure (.access _ _ _ _) _)⟩

theorem findRange_performs (tree : BTree τ) (entries repeats : Nat) (device : Device τ) :
    ∃ time ledger, (findRange entries repeats).Performs tree device time { tree with ledger }
      (tree.readings .range entries repeats) := by
  by_cases nothing : min entries tree.entries = 0 ∨ repeats = 0
  · have none : tree.readings .range entries repeats = [] := by
      rcases nothing with none | none
      · simp only [readings, reading, none, if_true, List.flatten_replicate_nil]
      · rw [none]
        rfl
    refine ⟨Scalar.zero, tree.ledger, .store_bind ?_⟩
    rw [none]
    simp only [if_pos nothing]
    exact .pure _ _ _
  · obtain ⟨time, searched⟩ := tree.searchRange_performs
      (unitsFor (min entries tree.entries) tree.fanout * tree.nodeSize) repeats device
    have repeated : tree.readings .range entries repeats = (List.replicate repeats
        (List.replicate (tree.height - 1) tree.readNode ++
          [⟨.read, unitsFor (min entries tree.entries) tree.fanout * tree.nodeSize⟩])).flatten := by
      simp only [readings, reading, if_neg (not_or.mp nothing).1]
    refine ⟨time, tree.ledger.record (.request .findRange) time 1, .store_bind ?_⟩
    simp only [if_neg nothing, repeated]
    exact searched.bind_idle (close_performs _ _ _ _)

theorem find_performs (tree : BTree τ) (lookup : Lookup) (entries repeats : Nat)
    (device : Device τ) :
    ∃ time ledger, (EntryStore.find lookup entries repeats).Performs tree device time
      { tree with ledger } (tree.readings lookup entries repeats) := by
  cases lookup with
  | point => exact tree.findPoint_performs entries repeats device
  | range => exact tree.findRange_performs entries repeats device

end BTree

end MergeCost
