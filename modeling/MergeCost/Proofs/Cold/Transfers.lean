import MergeCost.Proofs.Cold.Passes
import MergeCost.Simulation.Transfers

/-!
What a touch transfers. The transfers are listed beforehand, from the partitions, the blocks that
hold them and the block size of the device; a touch makes these and no others, in this order, and
the cost that it gives depends on no more than they do and the device.
-/

namespace MergeCost

open Sim

variable {τ : Type}

namespace PartitionStore

/-- What is left of the first erase block of a partition without its located entries, in bytes. -/
def rewrittenBytes (store : PartitionStore) (blockSize : Nat) (part : Located) : Nat :=
  let valid := store.remainingBytes part.partition
  (if blockSize = 0 then valid else min blockSize valid) - part.entries * store.recordSize

def invalidating (blockSize : Nat) (store : PartitionStore) (part : Located) : List Transfer :=
  match store.invalidation with
  | .blockRewrite => [⟨.overwrite, store.rewrittenBytes blockSize part⟩]
  | .inPlace =>
      [⟨.read, part.entries * store.recordSize⟩, ⟨.overwrite, part.entries * store.recordSize⟩]

def loading (store : PartitionStore) (part : Located) : List Transfer :=
  [⟨.read, store.remainingBytes part.partition⟩]

def touching (blockSize : Nat) (store : PartitionStore) (part : Located) : List Transfer :=
  store.invalidating blockSize part ++ store.loading part

/-- The transfers for some parts, each as it is when the parts before it have been drained. -/
def inTurn (each : PartitionStore → Located → List Transfer) :
    PartitionStore → List Located → List Transfer
  | _, [] => []
  | store, part :: rest => each store part ++ inTurn each (store.drain part) rest

/-! Parts of different partitions -/

/-- What is transferred for a part depends on no partition but its own. -/
def Separable (each : PartitionStore → Located → List Transfer) : Prop :=
  ∀ (store : PartitionStore) {part other : Located}, other.partition ≠ part.partition →
    each (store.drain other) part = each store part

theorem remaining_drain_of_ne (store : PartitionStore) {part other : Located}
    (different : other.partition ≠ part.partition) :
    (store.drain other).remaining part.partition = store.remaining part.partition := by
  rw [remaining_drain, if_neg different.symm]
  rfl

theorem remainingBytes_drain_of_ne (store : PartitionStore) {part other : Located}
    (different : other.partition ≠ part.partition) :
    (store.drain other).remainingBytes part.partition = store.remainingBytes part.partition :=
  congrArg (· * store.recordSize) (store.remaining_drain_of_ne different)

theorem separable_loading : Separable loading := by
  intro store part other different
  rw [loading, store.remainingBytes_drain_of_ne different, loading]

theorem separable_touching (blockSize : Nat) : Separable (touching blockSize) := by
  intro store part other different
  rw [touching, separable_loading store different]
  simp only [invalidating, rewrittenBytes, store.remainingBytes_drain_of_ne different]
  rfl

theorem inTurn_eq_flatMap {each : PartitionStore → Located → List Transfer}
    (separable : Separable each) (store : PartitionStore) {located : List Located}
    (distinct : (located.map Located.partition).Nodup) :
    inTurn each store located = located.flatMap (each store) := by
  induction located generalizing store with
  | nil => rfl
  | cons part rest ih =>
      obtain ⟨once, others⟩ := List.nodup_cons.mp distinct
      rw [inTurn, ih (store.drain part) others, List.flatMap_cons]
      congr 1
      apply List.flatMap_congr
      intro other member
      apply separable store
      intro same
      exact once (List.mem_map.mpr ⟨other, member, same.symm⟩)

/-! Touches of partitions alone -/

variable [Scalar τ] {store : PartitionStore} {partition : Nat} {part : Located}

theorem bytesOf_performs (inside : partition < store.partitions.size) (device : Device τ) :
    (bytesOf partition : Sim τ PartitionStore Nat).Performs store device
      (store.remainingBytes partition) store [] :=
  fun machine _ => ⟨machine, outcome_bytesOf inside machine, rfl⟩

theorem take_performs (inside : partition < store.partitions.size) (entries : Nat)
    (device : Device τ) :
    (take partition entries : Sim τ PartitionStore Nat).Performs store device
      (min entries (store.remaining partition)) (store.drain ⟨partition, entries⟩) [] :=
  fun machine _ => ⟨machine, outcome_take inside entries machine, rfl⟩

theorem load_performs (inside : part.partition < store.partitions.size) (device : Device τ) :
    ∃ time, (load part.partition : Sim τ PartitionStore τ).Performs store device time store
      (store.loading part) :=
  ⟨_, .idle_bind (bytesOf_performs inside device) (.access _ _ _ _)⟩

theorem invalidate_performs (inside : part.partition < store.partitions.size)
    (device : Device τ) :
    ∃ time, (invalidate part).Performs store device time store
      (store.invalidating device.blockSize part) := by
  let bytes := part.entries * store.recordSize
  unfold invalidate invalidating
  cases mode : store.invalidation with
  | blockRewrite =>
      refine ⟨device.timeOf ⟨.overwrite, store.rewrittenBytes device.blockSize part⟩,
        .store_bind ?_⟩
      simp only [mode]
      apply Performs.idle_bind (bytesOf_performs inside device)
      apply Performs.disk_bind
      intro disk there
      rw [there]
      exact .access _ _ _ _
  | inPlace =>
      let read := device.transfer ⟨.read, bytes⟩
      refine ⟨device.timeOf ⟨.read, bytes⟩ + read.timeOf ⟨.overwrite, bytes⟩, .store_bind ?_⟩
      simp only [mode]
      exact .bind (.access _ _ _ _) (.bind_pure (.access _ _ _ _) _)

theorem touchOne_performs (inside : part.partition < store.partitions.size) (cost : TouchCost τ)
    (device : Device τ) :
    ∃ next, (touchOne cost part).Performs store device next (store.drain part)
        (store.touching device.blockSize part) ∧
      next.entries = cost.entries + min part.entries (store.remaining part.partition) := by
  obtain ⟨invalidation, invalidated⟩ := invalidate_performs inside device
  obtain ⟨loading, loaded⟩ := load_performs inside
    (device.transferAll (store.invalidating device.blockSize part))
  have taken := take_performs inside part.entries ((device.transferAll
    (store.invalidating device.blockSize part)).transferAll (store.loading part))
  exact ⟨{ cost with
    invalidationTime := cost.invalidationTime + invalidation
    loadingTime := cost.loadingTime + loading
    entries := cost.entries + min part.entries (store.remaining part.partition) },
    invalidated.bind (loaded.bind (taken.bind_pure _)), rfl⟩

theorem touchAll_performs {located : List Located} (inside : store.InRange located)
    (cost : TouchCost τ) (device : Device τ) :
    ∃ total, (located.foldlM touchOne cost).Performs store device total (store.drainAll located)
        (inTurn (touching device.blockSize) store located) ∧
      total.entries + (store.drainAll located).entries = cost.entries + store.entries := by
  induction located generalizing store cost device with
  | nil => exact ⟨cost, .pure cost store device, rfl⟩
  | cons part rest ih =>
      obtain ⟨next, stepped, taken⟩ := touchOne_performs inside.head cost device
      obtain ⟨total, ended, entries⟩ :=
        ih inside.drain next (device.transferAll (store.touching device.blockSize part))
      rw [Device.blockSize_transferAll] at ended
      refine ⟨total, ?_, ?_⟩
      · rw [List.foldlM_cons]
        exact stepped.bind ended
      · have leaves := entries_drain store part
        rw [drainAll_cons]
        omega

theorem touch_performs {located : List Located} (inside : store.InRange located)
    (device : Device τ) :
    ∃ cost, (touch located).Performs store device cost (store.drainAll located)
        (inTurn (touching device.blockSize) store located) ∧
      cost.entries + (store.drainAll located).entries = store.entries ∧
      cost.invalidations = (if located.isEmpty then 0 else 1) ∧
      cost.loadings = if located.isEmpty then 0 else 1 := by
  cases located with
  | nil => exact ⟨.empty, .pure _ _ _, Nat.zero_add _, rfl, rfl⟩
  | cons part rest =>
      obtain ⟨cost, ran, entries⟩ := touchAll_performs inside .empty device
      exact ⟨{ cost with invalidations := 1, loadings := 1 },
        ran.bind_idle (.bind_pure (.emit _ _ _) _), entries.trans (Nat.zero_add _), rfl, rfl⟩

end PartitionStore

namespace GroupedStore

variable [Scalar τ] {store : GroupedStore τ}

/-- What a pass transfers, if one is due. -/
def reorganizing (store : GroupedStore τ) : List Transfer :=
  match store.plan? with
  | none => []
  | some (selected, _) =>
      let liveBytes := total ((selected.map Prod.fst).map EraseBlock.valid)
      [⟨.read, liveBytes⟩, ⟨.overwrite, liveBytes⟩]

/-- What a touch transfers: the parts are read, and a pass may follow. -/
def touching (store : GroupedStore τ) (located : List Located) : List Transfer :=
  if located.isEmpty then []
  else PartitionStore.inTurn PartitionStore.loading store.base located ++
    (store.settleAll located).reorganizing

theorem touchOne_performs {part : Located} (inside : part.partition < store.base.partitions.size)
    (cost : TouchCost τ) (device : Device τ) :
    ∃ next, (touchOne cost part).Performs store device next (store.settle part)
        (store.base.loading part) ∧
      next.entries = cost.entries + min part.entries (store.base.remaining part.partition) ∧
      next.invalidations = cost.invalidations := by
  obtain ⟨loading, loaded⟩ := PartitionStore.load_performs inside device
  have taken := PartitionStore.take_performs inside part.entries
    (device.transferAll (store.base.loading part))
  exact ⟨{ cost with
    loadingTime := cost.loadingTime + loading
    entries := cost.entries + min part.entries (store.base.remaining part.partition) },
    loaded.zoom.bind_idle (taken.zoom.idle_bind (.bind_pure (.update _ _ _) _)), rfl, rfl⟩

theorem touchAll_performs {located : List Located} (inside : store.base.InRange located)
    (cost : TouchCost τ) (device : Device τ) :
    ∃ total, (located.foldlM touchOne cost).Performs store device total (store.settleAll located)
        (PartitionStore.inTurn PartitionStore.loading store.base located) ∧
      total.entries + (store.base.drainAll located).entries = cost.entries + store.base.entries ∧
      total.invalidations = cost.invalidations := by
  induction located generalizing store cost device with
  | nil => exact ⟨cost, .pure cost store device, rfl, rfl⟩
  | cons part rest ih =>
      have settled : (store.settle part).base = store.base.drain part := rfl
      obtain ⟨next, stepped, taken, idle⟩ := touchOne_performs inside.head cost device
      obtain ⟨total, ended, entries, idleAfter⟩ :=
        ih (settled ▸ inside.drain) next (device.transferAll (store.base.loading part))
      rw [settled] at entries
      refine ⟨total, ?_, ?_, idleAfter.trans idle⟩
      · rw [List.foldlM_cons]
        exact stepped.bind ended
      · have leaves := PartitionStore.entries_drain store.base part
        rw [PartitionStore.drainAll_cons]
        omega

theorem reorganize_performs (represented : store.Represented)
    {selected : List (EraseBlock × Nat)} {bins : List Bin}
    (planned : store.plan? = some (selected, bins)) (device : Device τ) :
    ∃ time, (reorganize selected bins).Performs store device time store.passed
      store.reorganizing := by
  have covered := represented.reclaimed_le (selects_of_plan? planned).1
  let liveBytes := total ((selected.map Prod.fst).map EraseBlock.valid)
  let read := device.transfer ⟨.read, liveBytes⟩
  refine ⟨device.timeOf ⟨.read, liveBytes⟩ + read.timeOf ⟨.overwrite, liveBytes⟩, .store_bind ?_⟩
  rw [passed, reorganizing, planned]
  apply Performs.bind (.access _ _ _ _)
  apply Performs.bind_idle (.access _ _ _ _)
  simp only [if_neg (Nat.not_lt.mpr covered)]
  exact .idle_bind (.update _ _ _) (.bind_pure (.emit _ _ _) _)

theorem touch_performs (represented : store.Represented) {located : List Located}
    (inside : store.base.InRange located) (device : Device τ) :
    ∃ cost, (touch located).Performs store device cost (store.touched located)
        (store.touching located) ∧
      cost.entries + (store.base.drainAll located).entries = store.base.entries ∧
      cost.invalidations = (if located.isEmpty then 0 else (store.settleAll located).due) ∧
      cost.loadings = if located.isEmpty then 0 else 1 := by
  cases located with
  | nil => exact ⟨.empty, .pure _ _ _, Nat.zero_add _, rfl, rfl⟩
  | cons part rest =>
      obtain ⟨cost, ran, entries, idle⟩ := touchAll_performs inside .empty device
      rw [touching, touched, List.isEmpty_cons, if_neg Bool.false_ne_true]
      cases planned : (store.settleAll (part :: rest)).plan? with
      | none =>
          have none : (store.settleAll (part :: rest)).due = 0 := by simp [due, planned]
          refine ⟨{ cost with loadings := 1 }, ?_, entries.trans (Nat.zero_add _),
            idle.trans none.symm, rfl⟩
          rw [reorganizing, passed, planned, List.append_nil]
          refine ran.bind_idle (.store_bind ?_)
          simp only [planned]
          exact .pure _ _ _
      | some plan =>
          obtain ⟨selected, bins⟩ := plan
          have pass : (store.settleAll (part :: rest)).due = 1 := by simp [due, planned]
          obtain ⟨time, reorganized⟩ := reorganize_performs (represented.settleAll (part :: rest))
            planned (device.transferAll
              (PartitionStore.inTurn PartitionStore.loading store.base (part :: rest)))
          refine ⟨{ cost with
            invalidationTime := cost.invalidationTime + time
            invalidations := 1
            loadings := 1 }, ?_, entries.trans (Nat.zero_add _), pass.symm, rfl⟩
          refine ran.bind (.store_bind ?_)
          simp only [planned]
          exact reorganized.bind_pure _

end GroupedStore

namespace ColdTier

variable [Scalar τ] {tier : ColdTier τ}

/-- What a touch leaves of a tier. -/
def touched : ColdTier τ → List Located → ColdTier τ
  | plain store, located => .plain (store.drainAll located)
  | grouped store, located => .grouped (store.touched located)

/-- What a touch transfers on devices of a block size. -/
def touching (blockSize : Nat) : ColdTier τ → List Located → List Transfer
  | plain store, located => PartitionStore.inTurn (PartitionStore.touching blockSize) store located
  | grouped store, located => store.touching located

/-- The invalidations that a touch of something counts. -/
def invalidationsOf : ColdTier τ → List Located → Nat
  | plain _, _ => 1
  | grouped store, located => (store.settleAll located).due

theorem touch_performs (valid : tier.Valid) {located : List Located}
    (inside : tier.base.InRange located) (device : Device τ) :
    ∃ cost, (touch located).Performs tier device cost (tier.touched located)
        (tier.touching device.blockSize located) ∧
      cost.entries + (tier.base.drainAll located).entries = tier.entries ∧
      cost.invalidations = (if located.isEmpty then 0 else tier.invalidationsOf located) ∧
      cost.loadings = if located.isEmpty then 0 else 1 := by
  cases tier with
  | plain store =>
      have inside : store.InRange located := inside
      obtain ⟨cost, touched, counts⟩ := PartitionStore.touch_performs inside device
      exact ⟨cost, .store_bind touched.zoom, counts⟩
  | grouped store =>
      obtain ⟨cost, touched, counts⟩ := GroupedStore.touch_performs valid inside device
      exact ⟨cost, .store_bind touched.zoom, counts⟩

@[simp] theorem base_touched (tier : ColdTier τ) (located : List Located) :
    (tier.touched located).base = tier.base.drainAll located := by
  cases tier with
  | plain store => rfl
  | grouped store =>
      simp only [touched, base, GroupedStore.touched]
      split
      · rename_i nothing
        rw [List.isEmpty_iff.mp nothing]
        rfl
      · rw [GroupedStore.base_passed, GroupedStore.base_settleAll]

theorem locate_performs (valid : tier.Valid) (lookup : Lookup) (entries : Nat)
    (device : Device τ) :
    ∃ located moved, (locate lookup entries).Performs tier device located moved [] ∧
      moved.Valid ∧ moved.base.Allots located ∧ moved.entries = tier.entries ∧
      (located.map Located.entries).sum = min entries tier.entries := by
  obtain ⟨located, point, range, found, sound, allots, sum⟩ :=
    PartitionStore.locate_exists valid.base lookup entries
  refine ⟨located, _, fun machine _ => ⟨machine, outcome_locate found machine, rfl⟩,
    valid.withCursors sound, ?_, ?_, sum⟩
  · rw [base_withBase]
    exact ⟨allots.distinct, allots.available⟩
  · rw [ColdTier.entries, base_withBase]
    rfl

end ColdTier

end MergeCost
