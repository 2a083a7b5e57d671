import MergeCost.Proofs.Cost.Overwrites
import MergeCost.Proofs.Index.Merging

/-!
Requests to B+trees: the leaves that they replace and how they are counted. Each entry that is
inserted or deleted replaces one leaf; lookups only read. A request counts once, whatever it is
for.
-/

namespace MergeCost

open Sim

variable {τ σ : Type}

def OperationLedger.operations (ledger : OperationLedger τ) (operation : Operation) : Nat :=
  (ledger.tally operation).operations

theorem OperationLedger.operations_le_record [Scalar τ] (ledger : OperationLedger τ)
    (operation other : Operation) (time : τ) (operations : Nat) :
    ledger.operations other ≤ (ledger.record operation time operations).operations other :=
  (Nat.le_add_right ..).trans_eq (ledger.operations_record operation other time operations).symm

namespace EntryStore

variable [EntryStore τ σ]

def insertions (store : σ) : Nat := (ledger store).operations (.request .insert)

/-- Inserts of entries count once, and no other request counts as an insert. -/
structure Tallies (Valid : σ → Prop) : Prop where
  insert : ∀ {world : World τ σ}, Valid world.store → ∀ {entries : Nat}, 0 < entries →
    (EntryStore.insert entries).Yields world fun _ after =>
      insertions after.store = insertions world.store + 1
  find : ∀ {world : World τ σ}, Valid world.store → ∀ (lookup : Lookup) (entries repeats : Nat),
    (EntryStore.find lookup entries repeats).Yields world fun _ after =>
      insertions after.store = insertions world.store
  delete : ∀ {world : World τ σ}, Valid world.store → ∀ (entries : Nat),
    (EntryStore.delete entries).Yields world fun _ after =>
      insertions after.store = insertions world.store

end EntryStore

namespace BTree

variable {world first second third : World τ (BTree τ)}

/-- So many leaves have been replaced, and nothing has been counted yet. -/
structure Replaces (before : World τ (BTree τ)) (leaves : Nat) (after : World τ (BTree τ)) :
    Prop where
  nodeSize_eq : after.store.nodeSize = before.store.nodeSize
  ledger_eq : after.store.ledger = before.store.ledger
  overwrites : before.machine.Overwrites (leaves * before.store.nodeSize) [] after.machine

theorem Replaces.nothing (world : World τ (BTree τ)) : Replaces world 0 world := by
  refine ⟨rfl, rfl, ?_⟩
  rw [Nat.zero_mul]
  exact .nothing world.machine

theorem Replaces.trans {earlier later : Nat} (start : Replaces first earlier second)
    (rest : Replaces second later third) : Replaces first (earlier + later) third := by
  refine ⟨rest.nodeSize_eq.trans start.nodeSize_eq, rest.ledger_eq.trans start.ledger_eq, ?_⟩
  have more := rest.overwrites
  rw [start.nodeSize_eq] at more
  rw [Nat.add_mul]
  exact start.overwrites.trans more

theorem iterate_replaces {step : τ → Sim τ (BTree τ) τ} {leaves : Nat}
    (each : ∀ total world, (step total).Yields world fun _ after => Replaces world leaves after)
    (count : Nat) (total : τ) (world : World τ (BTree τ)) :
    (iterate step count total).Yields world fun _ after =>
      Replaces world (count * leaves) after := by
  induction count generalizing total world with
  | zero =>
      rw [Nat.zero_mul]
      exact (yields_pure _ _).mpr (.nothing world)
  | succ count ih =>
      rw [iterate, yields_bind]
      refine (each total world).mono ?_
      intro next between start
      refine (ih next between).mono ?_
      intro _ after rest
      rw [Nat.succ_mul, Nat.add_comm]
      exact start.trans rest

variable [Scalar τ]

theorem create_sizes {keySize dataSize nodeSize : Nat} {tree : BTree τ}
    (created : create keySize dataSize nodeSize = .ok tree) :
    tree.nodeSize = nodeSize ∧ tree.recordSize = keySize + dataSize := by
  unfold create at created
  split at created
  · contradiction
  · split at created
    · contradiction
    · cases created
      exact ⟨rfl, rfl⟩

theorem read_replaces (bytes : Nat) (world : World τ (BTree τ)) :
    (access .read bytes).Yields world fun _ after => Replaces world 0 after := by
  refine (yields_access _ _ _).mpr ⟨rfl, rfl, ?_⟩
  rw [Nat.zero_mul]
  exact .read _ _

theorem addTimes_replaces {action : Sim τ (BTree τ) τ} {leaves : Nat}
    (each : ∀ world, action.Yields world fun _ after => Replaces world leaves after) (count : Nat)
    (total : τ) (world : World τ (BTree τ)) :
    (addTimes action count total).Yields world fun _ after =>
      Replaces world (count * leaves) after := by
  refine iterate_replaces ?_ count total world
  intro total world
  rw [yields_bind]
  exact (each world).mono fun _ _ replaces => (yields_pure _ _).mpr replaces

theorem descend_replaces (levels : Nat) (world : World τ (BTree τ)) :
    (descend levels).Yields world fun _ after => Replaces world 0 after := by
  rw [descend, yields_bind, yields_store]
  exact addTimes_replaces (read_replaces world.store.nodeSize) levels _ world

theorem updateLeaf_replaces (world : World τ (BTree τ)) :
    updateLeaf.Yields world fun _ after => Replaces world 1 after := by
  simp only [updateLeaf, yields_bind, yields_store, yields_access, yields_pure]
  refine (descend_replaces world.store.height world).mono ?_
  intro _ between descended
  have replaced := descended.overwrites.trans (.overwrite _ world.store.nodeSize)
  rw [Nat.zero_mul, Nat.zero_add] at replaced
  refine ⟨descended.nodeSize_eq, descended.ledger_eq, ?_⟩
  rw [Nat.one_mul]
  exact replaced

theorem updateLeaves_replaces (change : Nat → Nat) (count : Nat) (world : World τ (BTree τ)) :
    (addTimes (do
      let time ← updateLeaf
      setEntries change
      return time) count Scalar.zero).Yields world fun _ after => Replaces world count after := by
  have step (world : World τ (BTree τ)) : (do
      let time ← updateLeaf
      setEntries change
      return time : Sim τ (BTree τ) τ).Yields world fun _ after => Replaces world 1 after := by
    simp only [yields_bind, setEntries, yields_update, yields_pure]
    refine (updateLeaf_replaces world).mono ?_
    intro _ after replaced
    exact ⟨replaced.nodeSize_eq, replaced.ledger_eq, replaced.overwrites⟩
  have all := addTimes_replaces step count Scalar.zero world
  rwa [Nat.mul_one] at all

/-- What a request leaves of the tree and the machine, with the inserts that have been counted. -/
structure Serves (before : World τ (BTree τ)) (insertions leaves : Nat)
    (after : World τ (BTree τ)) : Prop where
  nodeSize_eq : after.store.nodeSize = before.store.nodeSize
  insertions_eq :
    EntryStore.insertions after.store = EntryStore.insertions before.store + insertions
  operations_le : ∀ operation,
    before.store.ledger.operations operation ≤ after.store.ledger.operations operation
  overwrites : before.machine.Overwrites (leaves * before.store.nodeSize) [] after.machine

theorem Serves.nothing (world : World τ (BTree τ)) : Serves world 0 0 world :=
  ⟨rfl, rfl, fun _ => Nat.le_refl _, (Replaces.nothing world).overwrites⟩

theorem record_serves {between : World τ (BTree τ)} {leaves : Nat}
    (replaces : Replaces world leaves between) (request : Request) (time : τ) :
    (do
      record request time
      return time : Sim τ (BTree τ) τ).Yields between fun _ after =>
        Serves world (if request = .insert then 1 else 0) leaves after := by
  simp only [record, yields_bind, yields_update, yields_pure]
  refine ⟨replaces.nodeSize_eq, ?_, fun operation => ?_, replaces.overwrites⟩
  · change (between.store.ledger.record (.request request) time 1).operations (.request .insert) = _
    rw [OperationLedger.operations, OperationLedger.operations_record, replaces.ledger_eq]
    simp only [Operation.request.injEq]
    rfl
  · rw [← replaces.ledger_eq]
    exact OperationLedger.operations_le_record ..

theorem insert_serves {entries : Nat} (something : 0 < entries) (world : World τ (BTree τ)) :
    (insert entries).Yields world fun _ after => Serves world 1 entries after := by
  rw [insert, if_neg something.ne', yields_bind]
  exact (updateLeaves_replaces (· + 1) entries world).mono fun time _ replaces =>
    record_serves replaces .insert time

theorem findPoint_serves (entries repeats : Nat) (world : World τ (BTree τ)) :
    (findPoint entries repeats).Yields world fun _ after => Serves world 0 0 after := by
  rw [findPoint, yields_ite]
  refine ⟨fun _ => (yields_pure _ _).mpr (.nothing world), fun _ => ?_⟩
  rw [yields_bind, yields_store, branches_bind, yields_bind, yields_ite, yields_pure]
  constructor
  · intro _
    exact record_serves (.nothing world) .findPoint Scalar.zero
  · intro _
    refine (addTimes_replaces (descend_replaces world.store.height) _ _ world).mono ?_
    intro time between replaces
    exact record_serves replaces .findPoint time

theorem findRange_serves (entries repeats : Nat) (world : World τ (BTree τ)) :
    (findRange entries repeats).Yields world fun _ after => Serves world 0 0 after := by
  rw [findRange, yields_bind, yields_store, yields_ite]
  refine ⟨fun _ => (yields_pure _ _).mpr (.nothing world), fun _ => ?_⟩
  rw [yields_bind]
  refine (@iterate_replaces _ _ 0 ?_ repeats Scalar.zero world).mono ?_
  · intro total world
    rw [yields_bind]
    refine (descend_replaces _ world).mono ?_
    intro inner between descended
    rw [yields_bind]
    refine (read_replaces _ between).mono ?_
    intro leaves after read
    exact (yields_pure _ _).mpr (descended.trans read)
  · intro time between replaces
    exact record_serves replaces .findRange time

theorem find_serves (lookup : Lookup) (entries repeats : Nat) (world : World τ (BTree τ)) :
    (EntryStore.find lookup entries repeats).Yields world fun _ after =>
      Serves world 0 0 after := by
  cases lookup with
  | point => exact findPoint_serves entries repeats world
  | range => exact findRange_serves entries repeats world

theorem delete_serves (entries : Nat) (world : World τ (BTree τ)) :
    (delete entries).Yields world fun _ after =>
      Serves world 0 (min entries world.store.entries) after := by
  rw [delete, yields_bind, yields_store, yields_ite]
  constructor
  · intro nothing
    rw [yields_pure, nothing]
    exact .nothing world
  · intro _
    rw [yields_bind]
    exact (updateLeaves_replaces (· - 1) _ world).mono fun time _ replaces =>
      record_serves replaces .delete time

theorem tallies : EntryStore.Tallies (fun _ : BTree τ => True) where
  insert := fun _ _ something => (insert_serves something _).mono fun _ _ serves =>
    serves.insertions_eq
  find := fun _ lookup entries repeats => (find_serves lookup entries repeats _).mono
    fun _ _ serves => serves.insertions_eq
  delete := fun _ entries => (delete_serves entries _).mono fun _ _ serves => serves.insertions_eq

end BTree

end MergeCost
