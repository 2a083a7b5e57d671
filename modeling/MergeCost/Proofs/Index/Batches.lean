import MergeCost.Proofs.Device.Transfers
import MergeCost.Proofs.Index.Reachable
import MergeCost.Proofs.Index.Traversals
import Mathlib.Algebra.BigOperators.Intervals

/-!
Requests to B+trees in parts. A request comes to the transfers of its parts, one part after the
other, so that it leaves the disk as they do, with the same times to the last digit. An update looks
at the height that the tree has by then, and a lookup at the one that it has throughout.
-/

namespace MergeCost

open Sim

variable {τ : Type}

namespace BTree

variable (tree : BTree τ)

/-! Transfers in parts -/

theorem inserting_add (first second : Nat) :
    tree.inserting (first + second) = tree.inserting first ++
      (tree.withEntries (tree.entries + first)).inserting second := by
  rw [inserting, ← List.range'_append_1, List.flatMap_append]
  rfl

/-- The numbers of entries that the tree has before each of so many deletes. -/
def shrinking (entries : Nat) : List Nat :=
  (List.range (min entries tree.entries)).map (tree.entries - ·)

/-- What it takes to delete so many entries. -/
def deleting (entries : Nat) : List Transfer := (tree.shrinking entries).flatMap tree.updating

theorem shrinking_add (first second : Nat) :
    tree.shrinking (first + second) = tree.shrinking first ++
      (tree.withEntries (tree.entries - first)).shrinking second := by
  have parts : min (first + second) tree.entries =
      min first tree.entries + min second (tree.entries - first) := by
    omega
  simp only [shrinking, withEntries, parts, List.range_add, List.map_append, List.map_map]
  congr 1
  apply List.map_congr_left
  intro position among
  have := List.mem_range.mp among
  simp only [Function.comp_apply]
  omega

theorem deleting_add (first second : Nat) :
    tree.deleting (first + second) = tree.deleting first ++
      (tree.withEntries (tree.entries - first)).deleting second := by
  rw [deleting, shrinking_add, List.flatMap_append]
  rfl

theorem readings_add (lookup : Lookup) (entries first second : Nat) :
    tree.readings lookup entries (first + second) =
      tree.readings lookup entries first ++ tree.readings lookup entries second := by
  rw [readings, List.replicate_add, List.flatten_append]
  rfl

theorem readings_point_eq (entries repeats : Nat) :
    tree.readings .point entries repeats =
      (List.replicate (entries * repeats) (tree.readings .point 1 1)).flatten := by
  have single : tree.readings .point 1 1 = List.replicate tree.height tree.readNode := by
    rw [readings, reading, Nat.one_mul, List.replicate_one, List.flatten_singleton]
  rw [single, readings, reading, List.flatten_replicate_replicate,
    List.flatten_replicate_replicate, ← Nat.mul_assoc, Nat.mul_comm repeats]

/-! The nodes on the way of updates -/

/-- Each update reads the nodes down to a leaf and replaces the leaf. -/
theorem updating_perm (counts : List Nat) :
    (counts.flatMap tree.updating).Perm
      (List.replicate (counts.map tree.heightFor).sum tree.readNode ++
        List.replicate counts.length ⟨.overwrite, tree.nodeSize⟩) := by
  induction counts with
  | nil => exact .nil
  | cons count rest ih =>
      rw [List.flatMap_cons, List.map_cons, List.sum_cons, List.length_cons, List.replicate_add,
        List.replicate_succ, updating, List.append_assoc, List.append_assoc]
      exact .append_left _ ((List.Perm.cons _ ih).trans List.perm_middle.symm)

theorem sum_heights_inserting (entries : Nat) :
    ((List.range' tree.entries entries).map tree.heightFor).sum =
      ∑ held ∈ Finset.Ico tree.entries (tree.entries + entries), tree.heightFor held := by
  rw [← List.sum_toFinset _ List.nodup_range', List.toFinset_range'_1]

theorem sum_heights_deleting (entries : Nat) :
    ((tree.shrinking entries).map tree.heightFor).sum =
      ∑ held ∈ Finset.Ioc (tree.entries - entries) tree.entries, tree.heightFor held := by
  have distinct : (tree.shrinking entries).Nodup := by
    rw [shrinking, List.nodup_map_iff_inj_on List.nodup_range]
    simp only [List.mem_range]
    omega
  have held : (tree.shrinking entries).toFinset =
      Finset.Ioc (tree.entries - entries) tree.entries := by
    ext count
    simp only [shrinking, List.mem_toFinset, List.mem_map, List.mem_range, Finset.mem_Ioc]
    constructor
    · rintro ⟨position, before, rfl⟩
      omega
    · intro between
      exact ⟨tree.entries - count, by omega, by omega⟩
  rw [← List.sum_toFinset _ distinct, held]

end BTree

variable [Scalar τ]

/-- Both lists of calls end well, with the same number of entries and the same disk. -/
def Index.EndsAlike (index : Index τ) (calls others : List (Call τ)) : Prop :=
  ∃ (times otherTimes : List τ) (after other : Index τ),
    index.run calls = .ok (times.map .ok, after) ∧
    index.run others = .ok (otherTimes.map .ok, other) ∧
    other.entries = after.entries ∧ other.machine.disk = after.machine.disk

namespace BTree

variable (tree : BTree τ)

theorem delete_performs (entries : Nat) (device : Device τ) :
    ∃ time ledger, (delete entries).Performs tree device time
      { tree with entries := tree.entries - entries, ledger } (tree.deleting entries) := by
  have left : tree.entries - entries = tree.entries - min entries tree.entries := by omega
  rw [left]
  by_cases nothing : min entries tree.entries = 0
  · have none : tree.deleting entries = [] := by
      rw [deleting, shrinking, nothing]
      rfl
    rw [none, nothing]
    refine ⟨Scalar.zero, tree.ledger, .store_bind ?_⟩
    simp only [if_pos nothing]
    exact .pure _ _ _
  · obtain ⟨time, updated⟩ := @updateLeaves_performs τ _ tree (· - 1) (tree.entries - ·)
      (fun _ => Nat.sub_sub ..) (min entries tree.entries) 0 Scalar.zero device
    rw [Nat.zero_add] at updated
    refine ⟨time, tree.ledger.record (.request .delete) time 1, .store_bind ?_⟩
    simp only [if_neg nothing, deleting, shrinking, List.flatMap_map, List.range_eq_range']
    exact updated.bind_idle (close_performs _ _ _ _)

/-! Calls -/

/-- Whatever the tree has recorded, the call ends well and leaves so many entries, and the disk has
made these transfers. -/
def Charges (call : Call τ) (entries : Nat) (transfers : List Transfer) : Prop :=
  ∀ (ledger : OperationLedger τ) (device : Device τ), ∃ time left,
    call.action.Performs { tree with ledger } device time { tree with entries, ledger := left }
      transfers

/-- The same for calls that are made one after the other. -/
def Makes (calls : List (Call τ)) (entries : Nat) (transfers : List Transfer) : Prop :=
  ∀ (ledger : OperationLedger τ) (machine : Machine τ),
    ∃ (times : List τ) (left : OperationLedger τ) (after : Machine τ),
      Index.run ⟨0, { tree with ledger }, machine⟩ calls =
          .ok (times.map .ok, ⟨0, { tree with entries, ledger := left }, after⟩) ∧
        after.disk = machine.disk.transferAll transfers

namespace Makes

variable {tree} {call : Call τ} {calls others : List (Call τ)} {middle entries : Nat}
  {earlier later transfers : List Transfer}

theorem nothing (tree : BTree τ) : tree.Makes [] tree.entries [] :=
  fun ledger machine => ⟨[], ledger, machine, rfl, rfl⟩

theorem cons (charges : tree.Charges call middle earlier)
    (rest : (tree.withEntries middle).Makes calls entries later) :
    tree.Makes (call :: calls) entries (earlier ++ later) := by
  intro ledger machine
  obtain ⟨time, between, performs⟩ := charges ledger machine.disk.device
  obtain ⟨middle, called, first⟩ := performs machine rfl
  obtain ⟨times, left, after, ran, second⟩ := rest between middle
  have started : Index.call ⟨0, { tree with ledger }, machine⟩ call = _ :=
    Index.call_of_outcome called
  refine ⟨time :: times, left, after, Index.run_of_call started ran, ?_⟩
  rw [second, first, Disk.transferAll_append]

theorem single (charges : tree.Charges call entries transfers) :
    tree.Makes [call] entries transfers := by
  have alone := cons charges (.nothing (tree.withEntries entries))
  rwa [List.append_nil] at alone

/-- A call that leaves the entries as they are can be made over and over. -/
theorem replicate (charges : tree.Charges call tree.entries transfers) (count : Nat) :
    tree.Makes (List.replicate count call) tree.entries
      (List.replicate count transfers).flatten := by
  induction count with
  | zero => exact .nothing tree
  | succ count ih => exact .cons charges ih

theorem endsAlike (first : tree.Makes calls entries transfers)
    (second : tree.Makes others entries transfers) (machine : Machine τ) :
    Index.EndsAlike ⟨0, tree, machine⟩ calls others := by
  obtain ⟨times, _, _, ran, transferred⟩ := first tree.ledger machine
  obtain ⟨otherTimes, _, _, otherRan, otherTransferred⟩ := second tree.ledger machine
  exact ⟨times, otherTimes, _, _, ran, otherRan, rfl, otherTransferred.trans transferred.symm⟩

end Makes

theorem insert_charges (entries : Nat) :
    tree.Charges (.insert entries) (tree.entries + entries) (tree.inserting entries) :=
  fun ledger => { tree with ledger }.insert_performs entries

theorem delete_charges (entries : Nat) :
    tree.Charges (.delete entries) (tree.entries - entries) (tree.deleting entries) :=
  fun ledger => { tree with ledger }.delete_performs entries

theorem find_charges (lookup : Lookup) (entries repeats : Nat) :
    tree.Charges (.find lookup entries repeats) tree.entries
      (tree.readings lookup entries repeats) :=
  fun ledger => { tree with ledger }.find_performs lookup entries repeats

theorem inserts_in_parts (first second : Nat) :
    tree.Makes [.insert first, .insert second] (tree.entries + (first + second))
      (tree.inserting (first + second)) := by
  rw [inserting_add, ← Nat.add_assoc]
  exact .cons (tree.insert_charges first) (.single (insert_charges _ second))

theorem deletes_in_parts (first second : Nat) :
    tree.Makes [.delete first, .delete second] (tree.entries - (first + second))
      (tree.deleting (first + second)) := by
  rw [deleting_add, ← Nat.sub_sub]
  exact .cons (tree.delete_charges first) (.single (delete_charges _ second))

theorem points_in_parts (entries repeats : Nat) :
    tree.Makes (List.replicate (entries * repeats) (.find .point 1 1)) tree.entries
      (tree.readings .point entries repeats) := by
  rw [readings_point_eq]
  exact .replicate (tree.find_charges .point 1 1) (entries * repeats)

theorem ranges_in_parts (entries first second : Nat) :
    tree.Makes [.find .range entries first, .find .range entries second] tree.entries
      (tree.readings .range entries (first + second)) := by
  rw [readings_add]
  exact .cons (tree.find_charges .range entries first)
    (.single (tree.find_charges .range entries second))

end BTree

namespace Disk

/-- The accesses of each kind when so many nodes are read and so many leaves are replaced. -/
def visits (reads leaves : Nat) : Access → Nat
  | .read => reads
  | .write => 0
  | .overwrite => leaves

/-- So many nodes have been read and so many leaves replaced, and nothing else has happened. -/
structure Visits (before : Disk τ) (nodeSize reads leaves : Nat) (after : Disk τ) : Prop where
  transfers : ∃ transfers,
    transfers.Perm (List.replicate reads ⟨.read, nodeSize⟩ ++
      List.replicate leaves ⟨.overwrite, nodeSize⟩) ∧ after = before.transferAll transfers
  bytes_eq : ∀ kind, (after.total.traffic kind).bytes =
    (before.total.traffic kind).bytes + visits reads leaves kind * nodeSize
  operations_eq : 0 < nodeSize → ∀ kind, (after.total.traffic kind).operations =
    (before.total.traffic kind).operations + visits reads leaves kind

theorem Visits.of_perm (before : Disk τ) {nodeSize reads leaves : Nat} {transfers : List Transfer}
    (same : transfers.Perm (List.replicate reads ⟨.read, nodeSize⟩ ++
      List.replicate leaves ⟨.overwrite, nodeSize⟩)) :
    Visits before nodeSize reads leaves (before.transferAll transfers) where
  transfers := ⟨transfers, same, rfl⟩
  bytes_eq kind := by
    rw [(before.counts_transferAll transfers kind).1, Transfer.bytesOf_perm same]
    cases kind <;> simp [Transfer.bytesOf, visits, total_eq_sum]
  operations_eq some kind := by
    rw [(before.counts_transferAll transfers kind).2, Transfer.operationsOf_perm same]
    cases kind <;> simp [Transfer.operationsOf, visits, List.countP_replicate, some.ne']

end Disk

namespace BTree

variable (tree : BTree τ) (machine : Machine τ)

/-- Updates of a tree visit the nodes on the way to each leaf, by the height that the tree has
then. -/
theorem Charges.visits {tree : BTree τ} {call : Call τ} {entries : Nat} {counts : List Nat}
    (charges : tree.Charges call entries (counts.flatMap tree.updating)) :
    ∃ time after, Index.call ⟨0, tree, machine⟩ call = .ok (.ok time, after) ∧
      after.entries = entries ∧
      machine.disk.Visits tree.nodeSize (counts.map tree.heightFor).sum counts.length
        after.machine.disk := by
  obtain ⟨time, left, performs⟩ := charges tree.ledger machine.disk.device
  obtain ⟨after, called, transferred⟩ := performs machine rfl
  have visited := Disk.Visits.of_perm machine.disk (tree.updating_perm counts)
  exact ⟨time, _, Index.call_of_outcome called, rfl, transferred ▸ visited⟩

theorem insert_visits (entries : Nat) :
    ∃ time after, Index.call ⟨0, tree, machine⟩ (.insert entries) = .ok (.ok time, after) ∧
      after.entries = tree.entries + entries ∧
      machine.disk.Visits tree.nodeSize
        (∑ held ∈ Finset.Ico tree.entries (tree.entries + entries), tree.heightFor held) entries
        after.machine.disk := by
  have visited := Charges.visits machine (tree.insert_charges entries)
  rwa [sum_heights_inserting, List.length_range'] at visited

theorem delete_visits (entries : Nat) :
    ∃ time after, Index.call ⟨0, tree, machine⟩ (.delete entries) = .ok (.ok time, after) ∧
      after.entries = tree.entries - entries ∧
      machine.disk.Visits tree.nodeSize
        (∑ held ∈ Finset.Ioc (tree.entries - entries) tree.entries, tree.heightFor held)
        (min entries tree.entries) after.machine.disk := by
  have visited := Charges.visits machine (tree.delete_charges entries)
  rwa [sum_heights_deleting, shrinking, List.length_map, List.length_range] at visited

/-- Requests to a tree come to the same in one call and in parts: inserts and deletes split by their
entries, lookups of points down to single ones, and lookups of ranges split by their repeats. An
insert or delete reads a path of nodes for each entry, as long as the height of the tree before it,
and replaces as many leaves. -/
theorem requests_in_parts :
    (∀ first second, Index.EndsAlike ⟨0, tree, machine⟩ [.insert (first + second)]
      [.insert first, .insert second]) ∧
    (∀ first second, Index.EndsAlike ⟨0, tree, machine⟩ [.delete (first + second)]
      [.delete first, .delete second]) ∧
    (∀ entries repeats, Index.EndsAlike ⟨0, tree, machine⟩ [.find .point entries repeats]
      (List.replicate (entries * repeats) (.find .point 1 1))) ∧
    (∀ entries first second, Index.EndsAlike ⟨0, tree, machine⟩
      [.find .range entries (first + second)]
      [.find .range entries first, .find .range entries second]) ∧
    (∀ entries, ∃ time after,
      Index.call ⟨0, tree, machine⟩ (.insert entries) = .ok (.ok time, after) ∧
      after.entries = tree.entries + entries ∧
      machine.disk.Visits tree.nodeSize
        (∑ held ∈ Finset.Ico tree.entries (tree.entries + entries), tree.heightFor held) entries
        after.machine.disk) ∧
    (∀ entries, ∃ time after,
      Index.call ⟨0, tree, machine⟩ (.delete entries) = .ok (.ok time, after) ∧
      after.entries = tree.entries - entries ∧
      machine.disk.Visits tree.nodeSize
        (∑ held ∈ Finset.Ioc (tree.entries - entries) tree.entries, tree.heightFor held)
        (min entries tree.entries) after.machine.disk) := by
  constructor
  · intro first second
    exact (Makes.single (tree.insert_charges _)).endsAlike (tree.inserts_in_parts _ _) machine
  constructor
  · intro first second
    exact (Makes.single (tree.delete_charges _)).endsAlike (tree.deletes_in_parts _ _) machine
  constructor
  · intro entries repeats
    exact (Makes.single (tree.find_charges _ _ _)).endsAlike (tree.points_in_parts _ _) machine
  constructor
  · intro entries first second
    exact (Makes.single (tree.find_charges _ _ _)).endsAlike (tree.ranges_in_parts _ _ _) machine
  exact ⟨tree.insert_visits machine, tree.delete_visits machine⟩

end BTree

end MergeCost
