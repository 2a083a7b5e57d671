import Mathlib
import MergeCost.Proofs.Cold.Words

/-!
Grouped partitions over their whole life. The blocks, their byte counts, the holders of the
partitions and the number of stale entries are four views of the same entries; they agree when the
store is new and after every request to it.
-/

namespace MergeCost

open Sim

variable {τ : Type}

namespace GroupedStore

variable {store : GroupedStore τ}

theorem Represented.held_once (represented : store.Represented) {partition : Nat}
    (has : 0 < store.base.remaining partition) :
    ∃! position : Nat, ∃ block,
      store.blocks[position]? = some block ∧ partition ∈ block.partitions := by
  have listed := represented.layout.listed partition has
  rw [flatten_lists] at listed
  obtain ⟨block, member, inside⟩ := List.mem_flatMap.mp listed
  obtain ⟨position, found⟩ := List.mem_iff_getElem?.mp member
  refine ⟨position, ⟨block, found, inside⟩, ?_⟩
  -- Both positions are what the holder of the partition says.
  intro other held
  have first := (represented.holder_iff partition position).mpr ⟨block, found, inside⟩
  have second := (represented.holder_iff partition other).mpr held
  simpa [first] using second.symm

end GroupedStore

variable [Scalar τ]

/-- The tiers that requests lead to. Partitions may be grouped at any time, and each request may be
made on any machine. -/
inductive ColdTier.Reachable : ColdTier τ → Prop
  | create {total recordSize partitionSize : Nat} {invalidation : Invalidation}
      {store : PartitionStore}
      (created : (PartitionStore.create total recordSize partitionSize invalidation :
        Except (Error τ) PartitionStore) = .ok store) : Reachable (.plain store)
  | group {base : PartitionStore} {blockSize : Nat} {policy : ReorganizationPolicy τ}
      {store : GroupedStore τ} (before : Reachable (.plain base))
      (created : GroupedStore.create base blockSize policy = .ok store) : Reachable (.grouped store)
  | locate {tier : ColdTier τ} {machine : Machine τ} {lookup : Lookup} {entries : Nat}
      {located : List Located} {after : World τ (ColdTier τ)} (before : Reachable tier)
      (ran : outcome (ColdTier.locate lookup entries) ⟨tier, machine⟩ = .ok (.ok located, after)) :
      Reachable after.store
  | touch {tier : ColdTier τ} {machine : Machine τ} {located : List Located} {cost : TouchCost τ}
      {after : World τ (ColdTier τ)} (before : Reachable tier) (inside : tier.base.InRange located)
      (ran : outcome (ColdTier.touch located) ⟨tier, machine⟩ = .ok (.ok cost, after)) :
      Reachable after.store

theorem ColdTier.Reachable.valid {tier : ColdTier τ} (reachable : tier.Reachable) :
    tier.Valid := by
  induction reachable with
  | create created => exact (PartitionStore.create_sound created).1
  | group _ created ih => exact (GroupedStore.create_represented ih created).1
  | @locate tier machine lookup entries located after _ ran ih =>
      obtain ⟨_, base, _, ended, valid, _⟩ := ColdTier.locate_exists ih lookup entries machine
      rw [ended] at ran
      cases ran
      exact valid
  | @touch tier machine located cost after _ inside ran ih =>
      obtain ⟨_, left, _, ended, valid, _⟩ := ColdTier.touch_exists ih inside machine
      rw [ended] at ran
      cases ran
      exact valid

namespace ColdTier

/-- What calls in words make of a tier, with the number of entries that its touches have given.
Partitions may be grouped at any time, and each call may be made on any machine. -/
inductive Leads (first : ColdTier τ) : Nat → ColdTier τ → Prop
  | nothing : Leads first 0 first
  | group {given : Nat} {base : PartitionStore} {blockSize : Nat} {policy : ReorganizationPolicy τ}
      {store : GroupedStore τ} (before : Leads first given (.plain base))
      (created : GroupedStore.create base blockSize policy = .ok store) :
      Leads first given (.grouped store)
  | locate {given : Nat} {tier : ColdTier τ} {machine : Machine τ} {lookup : Lookup} {entries : Nat}
      {located : List Located} {after : World τ (ColdTier τ)} (before : Leads first given tier)
      (ran : outcome (ColdTier.locate lookup entries) ⟨tier, machine⟩ = .ok (.ok located, after)) :
      Leads first given after.store
  | touch {given : Nat} {tier : ColdTier τ} {machine : Machine τ} {located : List Located}
      {cost : TouchCost τ} {after : World τ (ColdTier τ)} (before : Leads first given tier)
      (inside : tier.base.InRange located)
      (ran : outcome (touchInWords located) ⟨tier, machine⟩ = .ok (.ok cost, after)) :
      Leads first (given + cost.entries) after.store

/-- The tiers that calls in words lead to, none of which has broken off. -/
def ReachableInWords (tier : ColdTier τ) : Prop :=
  ∃ (total recordSize partitionSize : Nat) (invalidation : Invalidation) (store : PartitionStore),
    (PartitionStore.create total recordSize partitionSize invalidation :
      Except (Error τ) PartitionStore) = .ok store ∧
    ∃ given, (plain store).Leads given tier

variable {first last tier : ColdTier τ} {given : Nat}

theorem Leads.reachable (start : first.Reachable) (leads : first.Leads given last) :
    last.Reachable := by
  induction leads with
  | nothing => exact start
  | group _ created ih => exact .group ih created
  | locate _ ran ih => exact .locate ih ran
  | touch _ inside ran ih => exact .touch ih inside (touch_of_touchInWords ih.valid inside ran)

namespace ReachableInWords

theorem reachable (inWords : tier.ReachableInWords) : tier.Reachable := by
  obtain ⟨_, _, _, _, _, created, _, leads⟩ := inWords
  exact leads.reachable (.create created)

theorem valid (inWords : tier.ReachableInWords) : tier.Valid := inWords.reachable.valid

theorem new {total recordSize partitionSize blockSize : Nat} {invalidation : Invalidation}
    {base : PartitionStore} {policy : ReorganizationPolicy τ} {store : GroupedStore τ}
    (laidOut : (PartitionStore.create total recordSize partitionSize invalidation :
      Except (Error τ) PartitionStore) = .ok base)
    (created : GroupedStore.create base blockSize policy = .ok store) :
    (grouped store).ReachableInWords :=
  ⟨_, _, _, _, _, laidOut, 0, .group .nothing created⟩

theorem touch (inWords : tier.ReachableInWords) {located : List Located}
    (inside : tier.base.InRange located) {machine : Machine τ} {cost : TouchCost τ}
    {after : World τ (ColdTier τ)}
    (ran : outcome (touchInWords located) ⟨tier, machine⟩ = .ok (.ok cost, after)) :
    after.store.ReachableInWords := by
  obtain ⟨_, _, _, _, _, created, _, leads⟩ := inWords
  exact ⟨_, _, _, _, _, created, _, leads.touch inside ran⟩

end ReachableInWords

end ColdTier

namespace GroupedStore

variable {store : GroupedStore τ}

/-- The four views of a grouped store agree. -/
structure Consistent (store : GroupedStore τ) : Prop where
  held_once : ∀ partition, 0 < store.base.remaining partition →
    ∃! position : Nat, ∃ block, store.blocks[position]? = some block ∧ partition ∈ block.partitions
  listed_once : (store.blocks.flatMap EraseBlock.partitions).Nodup
  holder_size : store.holder.size = store.base.partitions.size
  holder_iff : ∀ partition position, store.holder[partition]? = some (some position) ↔
    ∃ block : EraseBlock, store.blocks[position]? = some block ∧ partition ∈ block.partitions
  valid_eq : ∀ block ∈ store.blocks, block.valid =
    (block.partitions.map fun partition =>
      store.base.remaining partition * store.base.recordSize).sum
  stale_dvd : ∀ block ∈ store.blocks, store.base.recordSize ∣ block.stale
  within : ∀ block ∈ store.blocks, block.valid + block.stale ≤ store.blockCapacity
  stale_eq : store.staleEntries * store.base.recordSize = (store.blocks.map EraseBlock.stale).sum
  /-- No pass takes back more stale entries than are counted. -/
  reclaimed_le : ∀ selected bins, store.plan? = some (selected, bins) →
    store.staleEntriesOf (selected.map Prod.fst) ≤ store.staleEntries
  valid_sum : (store.blocks.map EraseBlock.valid).sum = store.base.entries * store.base.recordSize
  nonempty : ∀ block ∈ store.blocks, block.partitions ≠ []
  ordered : store.blocks.Pairwise fun left right =>
    ∀ first ∈ left.partitions.head?, ∀ second ∈ right.partitions.head?, first < second

theorem Represented.consistent (represented : store.Represented) : store.Consistent where
  held_once := fun _ => represented.held_once
  listed_once := by
    rw [← flatten_lists]
    exact represented.layout.once
  holder_size := by
    rw [represented.holder_eq, size_holders]
  holder_iff := represented.holder_iff
  valid_eq := fun block member => (represented.accounted block member).valid_eq
  stale_dvd := fun block member => (represented.accounted block member).stale_dvd
  within := fun block member => (represented.accounted block member).within
  stale_eq := represented.stale_eq
  reclaimed_le := fun _ _ planned => represented.reclaimed_le (selects_of_plan? planned).1
  valid_sum := represented.valid_sum
  nonempty := fun block member => represented.layout.nonempty _ (List.mem_map_of_mem member)
  ordered := List.pairwise_map.mp represented.layout.ordered

/-- Whatever requests it has had, a grouped store is consistent, and it breaks off at no further
request, unless it is a touch that counts more than fits into words: on the disk, or of all the
bytes that the store still holds. -/
theorem consistent_of_reachable (reachable : (ColdTier.grouped store).ReachableInWords) :
    store.Consistent ∧
      (∀ lookup entries machine, ∃ located after,
        outcome (ColdTier.locate lookup entries) ⟨.grouped store, machine⟩ =
          .ok (.ok located, after)) ∧
      ∀ located machine, store.base.InRange located → ∃ cost after,
        (ColdTier.grouped store).TouchesInWords located machine cost after ∧
          (after.machine.disk.Fits → Fits (store.base.entries * store.base.recordSize) →
            (ColdTier.grouped store).Roomy located after.machine.disk) := by
  have valid := reachable.valid
  refine ⟨Represented.consistent valid, ?_, ?_⟩
  · intro lookup entries machine
    obtain ⟨located, base, _, ran, _⟩ := ColdTier.locate_exists valid lookup entries machine
    exact ⟨located, _, ran⟩
  · intro located machine inside
    obtain ⟨cost, after, touches⟩ := ColdTier.touchInWords_exists valid inside machine
    exact ⟨cost, after, touches, ColdTier.roomy_of_fits valid⟩

/-- Three blocks, of which a touch empties one and takes something from another. A pass takes back
the empty block. -/
theorem consistent_after_pass :
    ∃ base, ∃ store : GroupedStore Rat,
      (PartitionStore.create 5 1 2 .blockRewrite : Except (Error Rat) PartitionStore) = .ok base ∧
      GroupedStore.create base 0 ⟨2, 1, 1⟩ = .ok store ∧
      ∃ machine cost left after,
        outcome (ColdTier.touchInWords [⟨0, 2⟩, ⟨1, 1⟩]) ⟨.grouped store, machine⟩ =
          .ok (.ok cost, ⟨.grouped left, after⟩) ∧
        left.passes = 1 ∧ left.blocks = [⟨2, 1, 0, [1]⟩, ⟨2, 1, 0, [2]⟩] ∧ left.Consistent := by
  let base : PartitionStore := ⟨1, 2, #[⟨2, 2⟩, ⟨2, 2⟩, ⟨1, 1⟩], .blockRewrite, 0, 0⟩
  let store : GroupedStore Rat := ⟨base, ⟨2, 1, 1⟩,
    [⟨2, 2, 0, [0]⟩, ⟨2, 2, 0, [1]⟩, ⟨2, 1, 0, [2]⟩], #[some 0, some 1, some 2], 2, 0, 0⟩
  let left : GroupedStore Rat := { store with
    base := { base with partitions := #[⟨2, 0⟩, ⟨2, 1⟩, ⟨1, 1⟩] }
    blocks := [⟨2, 1, 0, [1]⟩, ⟨2, 1, 0, [2]⟩]
    holder := #[none, some 0, some 1]
    passes := 1 }
  let machine : Machine Rat := .create (.create (.pcm ⟨⟨"PCM", 64, 1, 2⟩, 0⟩))
  have laidOut : (PartitionStore.create 5 1 2 .blockRewrite :
    Except (Error Rat) PartitionStore) = .ok base := rfl
  have grouped : GroupedStore.create base 0 ⟨2, 1, 1⟩ = .ok store := by cbv
  have inside : store.base.InRange [⟨0, 2⟩, ⟨1, 1⟩] := by
    simp [PartitionStore.InRange, store, base]
  obtain ⟨cost, after, ran⟩ : ∃ cost after,
      outcome (ColdTier.touchInWords [⟨0, 2⟩, ⟨1, 1⟩]) ⟨.grouped store, machine⟩ =
        .ok (.ok cost, ⟨.grouped left, after⟩) := by
    refine ⟨?_, ?_, ?ran⟩
    case ran => cbv; rfl
  have touched := (ColdTier.ReachableInWords.new laidOut grouped).touch inside ran
  exact ⟨base, store, laidOut, grouped, machine, cost, left, after, ran, rfl, rfl,
    (consistent_of_reachable touched).1⟩

end GroupedStore

end MergeCost
