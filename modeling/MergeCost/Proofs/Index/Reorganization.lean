import MergeCost.Proofs.Index.Counts

/-!
Passes over the life of an index that puts invalidation off. No call makes more than one pass, each
pass costs at least one of the blocks that there were to start with, and no other block is ever
lost; so passes are bounded by the blocks of the new index.
-/

namespace MergeCost

variable {τ : Type} [Scalar τ]

/-- How a grouped store goes on within one call: it keeps its blocks, or makes one pass. -/
structure GroupedStore.Proceeds (before after : GroupedStore τ) : Prop where
  together : after.blocks.length ≠ before.blocks.length ↔ after.passes ≠ before.passes
  pass : after.passes ≠ before.passes →
    after.passes = before.passes + 1 ∧ after.blocks.length < before.blocks.length

omit [Scalar τ] in
theorem GroupedStore.Advances.proceeds {before after : GroupedStore τ} {passes : Nat}
    (advances : before.Advances passes after) (most : passes ≤ 1) : before.Proceeds after := by
  have counted := advances.passes_eq
  have fewer := advances.blocks_le
  have same := advances.blocks_eq
  constructor <;> omega

namespace Index

variable {inner index : Index τ}

theorem deferred_exists {partitionSize startingEntries : Nat} {policy : ReorganizationPolicy τ}
    (built : inner.deferred partitionSize startingEntries policy = .ok index) :
    ∃ start : GroupedStore τ, index = inner.wrap .deferred (.grouped start) ∧
      start.base.entries = startingEntries ∧ start.passes = 0 ∧ start.staleEntries = 0 ∧
      start.blocks.length = unitsFor start.base.partitions.size
        (GroupedStore.partitionsPerBlock start.base inner.device.blockSize) := by
  obtain ⟨store, created, rest⟩ := Except.exists_of_bind built
  obtain ⟨start, arranged, wrapped⟩ := Except.exists_of_bind rest
  obtain ⟨rfl, passes, stale, blocks⟩ := GroupedStore.create_blocks arranged
  cases wrapped
  exact ⟨start, rfl, (PartitionStore.create_sound created).2, passes, stale, blocks⟩

/-- Whatever calls are made on an index that puts invalidation off, blocks and passes together are
never more than the blocks that it started with, every pass has been counted as an invalidation, and
the entries that have left are stale until a pass takes them back. No further call does more than
make one pass, which costs a block. -/
theorem run_passes {partitionSize startingEntries : Nat} {policy : ReorganizationPolicy τ}
    (reachable : inner.Reachable)
    (built : inner.deferred partitionSize startingEntries policy = .ok index)
    (calls : List (Call τ)) :
    ∃ start first results after level store,
      index.level? = some first ∧ first.cold = .grouped start ∧ start.passes = 0 ∧
      start.blocks.length = unitsFor start.base.partitions.size
        (GroupedStore.partitionsPerBlock start.base inner.device.blockSize) ∧
      index.run calls = .ok (results, after) ∧
      after.level? = some level ∧ level.cold = .grouped store ∧
      store.blocks.length + store.passes ≤ start.blocks.length ∧
      level.ledger.value (.operations .invalidation) = .count store.passes ∧
      store.staleEntries + store.base.entries ≤ startingEntries ∧
      (store.passes = 0 → store.staleEntries + store.base.entries = startingEntries) ∧
      ∀ call, ∃ result next nextLevel left, after.call call = .ok (result, next) ∧
        next.level? = some nextLevel ∧ nextLevel.cold = .grouped left ∧ store.Proceeds left := by
  have settled : index.Settled := (Reachable.wrap reachable (.deferred built)).settled
  obtain ⟨results, after, ran, stillSettled, runs, _⟩ := runs_exists settled calls
  obtain ⟨start, rfl, entries, new, clean, blocks⟩ := deferred_exists built
  let first : Level τ := (Merging.create .deferred inner.stack (.grouped start)).level
  have viewed : (inner.wrap .deferred (.grouped start)).level? = some first := rfl
  obtain ⟨level, leftViewed, grows⟩ := runs.grows viewed
  obtain ⟨invalidations, goes, counted⟩ := grows.goes
  have none : first.ledger.operations .invalidation = 0 := rfl
  rw [none, Nat.zero_add] at counted
  have cold : first.cold = .grouped start := rfl
  rw [cold] at goes
  obtain ⟨store, leftCold, advances, _⟩ := goes.of_grouped
  have passes := advances.passes_eq
  have fewer := advances.blocks_le
  have stale := advances.stale_le
  have allStale := advances.stale_eq
  refine ⟨start, first, results, after, level, store, viewed, cold, new, blocks, ran, leftViewed,
    leftCold, by omega, ?_, by omega, by omega, ?_⟩
  · exact congrArg Reading.count (counted.trans (by omega))
  · intro call
    obtain ⟨result, next, called, _⟩ := call_exists stillSettled call
    obtain ⟨nextLevel, nextViewed, nextGrows⟩ := call_grows stillSettled leftViewed called
    obtain ⟨_, nextGoes, _⟩ := nextGrows.goes
    rw [leftCold] at nextGoes
    obtain ⟨left, nextCold, nextAdvances, most⟩ := nextGoes.of_grouped
    refine ⟨result, next, nextLevel, left, called, nextViewed, nextCold, ?_⟩
    exact nextAdvances.proceeds (most.trans (by split <;> omega))

/-- A find and a delete each end in a pass, and then no block is left. -/
theorem run_passes_of_two_blocks :
    ∃ tree index : Index Rat,
      Index.tree (.create (.ssd ⟨⟨"SSD", 4, 8, 1, 2, 1, 1, 3, 1⟩, 0, 0⟩)) 1 1 16 = .ok tree ∧
      tree.deferred 4 5 ⟨1, 1, 1⟩ = .ok index ∧
      ∃ results after level store,
        index.run [.find .range 4 1, .insert 2, .delete 7] = .ok (results, after) ∧
        after.level? = some level ∧ level.cold = .grouped store ∧
        store.passes = 2 ∧
        store.blocks.length + store.passes ≤ 2 ∧
        level.ledger.value (.operations .invalidation) = .count 2 ∧
        store.staleEntries + store.base.entries ≤ 5 := by
  obtain ⟨tree, index, planted, built, two, passes⟩ : ∃ tree index : Index Rat,
      Index.tree (.create (.ssd ⟨⟨"SSD", 4, 8, 1, 2, 1, 1, 3, 1⟩, 0, 0⟩)) 1 1 16 = .ok tree ∧
      tree.deferred 4 5 ⟨1, 1, 1⟩ = .ok index ∧
      (∀ level start, index.level? = some level → level.cold = .grouped start →
        start.blocks.length = 2) ∧
      (do
        let (_, after) ← (index.run [.find .range 4 1, .insert 2, .delete 7]).toOption
        let level ← after.level?
        let store ← level.cold.grouped?
        return store.passes) = some 2 := by
    refine ⟨_, _, rfl, rfl, ?blocks, ?passes⟩
    case blocks =>
      rintro _ _ ⟨⟩ ⟨⟩
      rfl
    case passes => cbv
  obtain ⟨start, first, results, after, level, store, viewed, cold, _, _, ran, leftViewed,
    leftCold, bounded, counted, stale, _⟩ :=
    run_passes (.tree planted) built [.find .range 4 1, .insert 2, .delete 7]
  rw [two first start viewed cold] at bounded
  have made : store.passes = 2 := by
    simpa [ran, Except.toOption, leftViewed, leftCold, ColdTier.grouped?] using passes
  rw [made] at counted
  exact ⟨tree, index, planted, built, results, after, level, store, ran, leftViewed, leftCold,
    made, bounded, counted, stale⟩

end Index

end MergeCost
