import MergeCost.Proofs.Cold.Reachable

/-!
The partitions of cold entries from the start. New partitions divide all entries between them; from
then on their capacities stay as they are, entries only ever leave them, and those that have left
are the ones that touches have given.
-/

namespace MergeCost

open Sim

variable {τ : Type}

namespace PartitionStore

theorem create_exists {recordSize partitionSize : Nat} (someRecord : 0 < recordSize)
    (fits : recordSize ≤ partitionSize) (total : Nat) (invalidation : Invalidation) :
    (create total recordSize partitionSize invalidation : Except (Error τ) PartitionStore) =
      .ok ⟨recordSize, partitionSize / recordSize, layOut total (partitionSize / recordSize),
        invalidation, 0, 0⟩ := by
  have someEntry : partitionSize / recordSize ≠ 0 := (Nat.div_pos fits someRecord).ne'
  simp only [create, if_neg someRecord.ne', if_neg someEntry]

/-- A new partition has room for the entries in it and no others. -/
theorem sum_capacity_layOut {store : PartitionStore} {total perPartition : Nat}
    (laidOut : store.partitions = layOut total perPartition) :
    (store.partitions.toList.map Partition.capacity).sum = store.entries := by
  rw [entries, total_eq_sum, laidOut]
  congr 1
  apply List.map_congr_left
  intro partition member
  obtain ⟨position, rfl⟩ := Array.mem_ofFn.mp (Array.mem_toList_iff.mp member)
  rfl

/-- The capacities of the partitions in order. -/
def capacities (store : PartitionStore) : List Nat :=
  store.partitions.toList.map Partition.capacity

/-- Partitions of one capacity, but perhaps for a smaller one at the end, that together have room
for a total. -/
structure Divides (store : PartitionStore) (total perPartition : Nat) : Prop where
  size_eq : store.partitions.size = total ⌈/⌉ perPartition
  capacity_eq : ∀ partition, partition + 1 < store.partitions.size →
    store.partitions[partition]?.map Partition.capacity = some perPartition
  capacity_pos : ∀ partition ∈ store.partitions, 0 < partition.capacity
  capacity_le : ∀ partition ∈ store.partitions, partition.capacity ≤ perPartition
  capacities_sum : store.capacities.sum = total

theorem divides_of_layOut {store : PartitionStore} {total perPartition : Nat}
    (positive : 0 < perPartition) (laidOut : store.partitions = layOut total perPartition) :
    store.Divides total perPartition := by
  have size : store.partitions.size = unitsFor total perPartition := by
    rw [laidOut]
    exact Array.size_ofFn
  constructor
  · rw [size, unitsFor_eq_ceilDiv]
  · intro partition before
    rw [size] at before
    -- the next partition starts before the end, so that this one is whole
    have next := (lt_unitsFor_iff positive).mp before
    rw [Nat.succ_mul] at next
    have inside : partition < unitsFor total perPartition := by omega
    simp only [laidOut, layOut, Array.getElem?_ofFn, inside, dif_pos, Option.map_some,
      Partition.full]
    congr 1
    omega
  · intro partition member
    rw [laidOut] at member
    obtain ⟨position, rfl⟩ := Array.mem_ofFn.mp member
    have start := (lt_unitsFor_iff positive).mp position.isLt
    simp only [Partition.full]
    omega
  · intro partition member
    rw [laidOut] at member
    obtain ⟨position, rfl⟩ := Array.mem_ofFn.mp member
    exact Nat.min_le_left ..
  · rw [capacities, sum_capacity_layOut laidOut]
    exact entries_layOut positive laidOut

@[simp] theorem capacities_drainAll (store : PartitionStore) (located : List Located) :
    (store.drainAll located).capacities = store.capacities := by
  apply List.ext_getElem?
  intro partition
  rw [capacities, capacities, List.getElem?_map, List.getElem?_map, Array.getElem?_toList,
    Array.getElem?_toList, getElem?_drainAll, Option.map_map]
  rfl

end PartitionStore

namespace ColdTier

/-- What a tier keeps of an earlier one after so many entries have been given. -/
structure Keeps (earlier : ColdTier τ) (given : Nat) (later : ColdTier τ) : Prop where
  valid : later.Valid
  capacities_eq : later.base.capacities = earlier.base.capacities
  remaining_le : ∀ partition, later.base.remaining partition ≤ earlier.base.remaining partition
  entries_eq : given + later.entries = earlier.entries

variable {first between last : ColdTier τ} {given more : Nat}

theorem Keeps.nothing (valid : first.Valid) : first.Keeps 0 first :=
  ⟨valid, rfl, fun _ => Nat.le_refl _, Nat.zero_add _⟩

theorem Keeps.trans (start : first.Keeps given between) (rest : between.Keeps more last) :
    first.Keeps (given + more) last where
  valid := rest.valid
  capacities_eq := rest.capacities_eq.trans start.capacities_eq
  remaining_le partition := (rest.remaining_le partition).trans (start.remaining_le partition)
  entries_eq := by
    rw [Nat.add_assoc, rest.entries_eq, start.entries_eq]

/-- Only what the partitions have left is looked at, so that cursors and blocks may change. -/
theorem Keeps.of_partitions (valid : last.Valid)
    (same : last.base.partitions = first.base.partitions) : first.Keeps 0 last := by
  constructor
  · exact valid
  · rw [PartitionStore.capacities, same]
    rfl
  · intro partition
    rw [PartitionStore.remaining, same]
    exact Nat.le_refl _
  · rw [entries, PartitionStore.entries, same]
    exact Nat.zero_add _

variable {tier : ColdTier τ} {machine : Machine τ} {located : List Located}
  {after : World τ (ColdTier τ)}

theorem locate_keeps (valid : tier.Valid) {lookup : Lookup} {entries : Nat}
    (ran : outcome (ColdTier.locate lookup entries) ⟨tier, machine⟩ = .ok (.ok located, after)) :
    tier.Keeps 0 after.store := by
  obtain ⟨_, base, found, ended, still, _⟩ := locate_exists valid lookup entries machine
  obtain ⟨_, point, range, moved, _⟩ := PartitionStore.locate_exists valid.base lookup entries
  rw [found] at moved
  cases moved
  rw [ended] at ran
  cases ran
  refine .of_partitions still ?_
  rw [base_withBase]
  rfl

variable [Scalar τ]

theorem group_keeps {base : PartitionStore} {blockSize : Nat} {policy : ReorganizationPolicy τ}
    {store : GroupedStore τ} (valid : (plain base : ColdTier τ).Valid)
    (created : GroupedStore.create base blockSize policy = .ok store) :
    (plain base).Keeps 0 (.grouped store) := by
  obtain ⟨represented, same⟩ := GroupedStore.create_represented valid created
  exact .of_partitions represented (congrArg PartitionStore.partitions same)

theorem touch_keeps (valid : tier.Valid) (inside : tier.base.InRange located) {cost : TouchCost τ}
    (ran : outcome (ColdTier.touch located) ⟨tier, machine⟩ = .ok (.ok cost, after)) :
    tier.Keeps cost.entries after.store := by
  obtain ⟨_, left, _, ended, still, drained, entries, _⟩ := touch_exists valid inside machine
  rw [ended] at ran
  cases ran
  refine ⟨still, ?_, ?_, entries⟩
  · rw [drained, PartitionStore.capacities_drainAll]
  · intro partition
    rw [drained, PartitionStore.remaining_drainAll]
    exact Nat.sub_le ..

theorem Leads.keeps (valid : first.Valid) (leads : first.Leads given last) :
    first.Keeps given last := by
  induction leads with
  | nothing => exact .nothing valid
  | group _ created ih => exact ih.trans (group_keeps ih.valid created)
  | locate _ ran ih => exact ih.trans (locate_keeps ih.valid ran)
  | touch _ inside ran ih =>
      exact ih.trans (touch_keeps ih.valid inside (touch_of_touchInWords ih.valid inside ran))

/-- What holds after calls on a store of a total of entries, of which touches have given some. -/
structure Sustains (store : PartitionStore) (total given : Nat) (tier : ColdTier τ) : Prop where
  capacities_eq : tier.base.capacities = store.capacities
  bounded : ∀ partition ∈ tier.base.partitions, partition.remaining ≤ partition.capacity
  entries_eq : given + tier.entries = total
  pointCursor_lt : 0 < tier.base.partitions.size →
    tier.base.pointCursor < tier.base.partitions.size
  rangeCursor_lt : 0 < tier.base.partitions.size →
    tier.base.rangeCursor < tier.base.partitions.size
  /-- No partition ever holds more entries than before. -/
  remaining_le : ∀ more later, tier.Leads more later →
    ∀ partition, later.base.remaining partition ≤ tier.base.remaining partition
  locate_exists : ∀ lookup entries machine, ∃ located after,
    outcome (ColdTier.locate lookup entries) ⟨tier, machine⟩ = .ok (.ok located, after)
  /-- A touch breaks off only where more than fits into words is there or asked for. -/
  touch_exists : ∀ located machine, tier.base.InRange located → ∃ cost after,
    tier.TouchesInWords located machine cost after

theorem Keeps.sustains {store : PartitionStore} (keeps : (plain store).Keeps given tier) :
    Sustains store store.entries given tier where
  capacities_eq := keeps.capacities_eq
  bounded partition member := (keeps.valid.base.bounded partition member).1
  entries_eq := keeps.entries_eq
  pointCursor_lt := keeps.valid.base.pointCursor_lt
  rangeCursor_lt := keeps.valid.base.rangeCursor_lt
  remaining_le _ _ leads := (leads.keeps keeps.valid).remaining_le
  locate_exists lookup entries machine := by
    obtain ⟨located, _, _, ran, _⟩ := ColdTier.locate_exists keeps.valid lookup entries machine
    exact ⟨located, _, ran⟩
  touch_exists _ machine inside := touchInWords_exists keeps.valid inside machine

/-- New partitions are all of one capacity, but perhaps for a smaller one at the end, and have room
for just the entries that there are. Whatever is located and touched then, in any order and as often
as it may be listed, capacities stay, no partition gains entries, what is left and what touches have
given make up the total, and both cursors stay inside. -/
theorem capacities_kept {recordSize partitionSize : Nat} (someRecord : 0 < recordSize)
    (fits : recordSize ≤ partitionSize) (total : Nat) (invalidation : Invalidation) :
    ∃ store, (PartitionStore.create total recordSize partitionSize invalidation :
        Except (Error τ) PartitionStore) = .ok store ∧
      store.Divides total (partitionSize / recordSize) ∧
      ∀ given (tier : ColdTier τ), (plain store).Leads given tier →
        Sustains store total given tier := by
  obtain ⟨store, created, laidOut⟩ :
      ∃ store, (PartitionStore.create total recordSize partitionSize invalidation :
          Except (Error τ) PartitionStore) = .ok store ∧
        store.partitions = PartitionStore.layOut total (partitionSize / recordSize) :=
    ⟨_, PartitionStore.create_exists someRecord fits total invalidation, rfl⟩
  have divides := PartitionStore.divides_of_layOut (Nat.div_pos fits someRecord) laidOut
  obtain ⟨sound, entries⟩ := PartitionStore.create_sound created
  have valid : (plain store : ColdTier τ).Valid := sound
  refine ⟨store, created, divides, ?_⟩
  intro given tier leads
  have sustains := (leads.keeps valid).sustains
  rwa [entries] at sustains

/-- Three partitions, and a touch that lists one of them twice, with more than it holds, and another
one for nothing. -/
theorem capacities_kept_of_five_entries :
    ∃ store, (PartitionStore.create 5 1 2 .inPlace : Except (Error Rat) PartitionStore) =
        .ok store ∧
      store.capacities = [2, 2, 1] ∧
      ∃ (machine : Machine Rat) (cost : TouchCost Rat) (after : World Rat (ColdTier Rat)),
        outcome (ColdTier.touchInWords [⟨0, 1⟩, ⟨0, 7⟩, ⟨2, 0⟩]) ⟨plain store, machine⟩ =
          .ok (.ok cost, after) ∧
        cost.entries + after.store.entries = 5 ∧ after.store.base.capacities = [2, 2, 1] := by
  let machine : Machine Rat := .create (.create (.pcm ⟨⟨"PCM", 64, 1, 2⟩, 0⟩))
  let three : PartitionStore := ⟨1, 2, #[⟨2, 2⟩, ⟨2, 2⟩, ⟨1, 1⟩], .inPlace, 0, 0⟩
  obtain ⟨store, created, divides, kept⟩ :=
    @capacities_kept Rat _ 1 2 (by decide) (by decide) 5 .inPlace
  have laidOut : (PartitionStore.create 5 1 2 .inPlace : Except (Error Rat) PartitionStore) =
    .ok three := rfl
  obtain rfl : three = store := by
    rw [laidOut] at created
    cases created
    rfl
  have inside : (plain three : ColdTier Rat).base.InRange [⟨0, 1⟩, ⟨0, 7⟩, ⟨2, 0⟩] := by
    simp [PartitionStore.InRange, base, three]
  obtain ⟨cost, after, ran⟩ : ∃ cost after,
      outcome (ColdTier.touchInWords [⟨0, 1⟩, ⟨0, 7⟩, ⟨2, 0⟩]) ⟨plain three, machine⟩ =
        .ok (.ok cost, after) := by
    refine ⟨?_, ?_, ?ran⟩
    case ran => cbv; rfl
  have touched := kept _ _ (.touch .nothing inside ran)
  have entries := touched.entries_eq
  rw [Nat.zero_add] at entries
  exact ⟨three, created, rfl, machine, cost, after, ran, entries, touched.capacities_eq⟩

end ColdTier

end MergeCost
