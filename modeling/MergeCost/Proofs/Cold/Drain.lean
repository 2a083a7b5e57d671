import MergeCost.Cold.PartitionStore
import MergeCost.Proofs.Rounding
import Mathlib.Algebra.BigOperators.Fin
import Mathlib.Algebra.Order.BigOperators.Group.Finset

/-!
What leaves a partition store. `drain` is the pure meaning of a touch: the located entries go, as
far as they are there, and nothing else changes.
-/

namespace MergeCost

@[simp] theorem total_eq_sum (counts : List Nat) : total counts = counts.sum := rfl

namespace PartitionStore

/-- A store that its construction and its requests can lead to. -/
structure Sound (store : PartitionStore) : Prop where
  recordSize_pos : 0 < store.recordSize
  perPartition_pos : 0 < store.entriesPerPartition
  bounded : ∀ partition ∈ store.partitions,
    partition.remaining ≤ partition.capacity ∧ partition.capacity ≤ store.entriesPerPartition
  pointCursor_lt : 0 < store.partitions.size → store.pointCursor < store.partitions.size
  rangeCursor_lt : 0 < store.partitions.size → store.rangeCursor < store.partitions.size

def InRange (store : PartitionStore) (located : List Located) : Prop :=
  ∀ part ∈ located, part.partition < store.partitions.size

/-- The store after located entries have left. -/
def drain (store : PartitionStore) (part : Located) : PartitionStore :=
  { store with
    partitions := store.partitions.modify part.partition fun found => (found.take part.entries).2 }

def drainAll (store : PartitionStore) (located : List Located) : PartitionStore :=
  located.foldl drain store

/-! What remains -/

theorem remaining_eq_zero {store : PartitionStore} {partition : Nat}
    (outside : store.partitions.size ≤ partition) : store.remaining partition = 0 := by
  simp [remaining, Array.getElem?_eq_none outside]

theorem lt_size_of_remaining {store : PartitionStore} {partition : Nat}
    (some : 0 < store.remaining partition) : partition < store.partitions.size := by
  by_contra outside
  have := remaining_eq_zero (Nat.le_of_not_lt outside)
  omega

theorem remaining_of_getElem? {store : PartitionStore} {partition : Nat} {found : Partition}
    (lookup : store.partitions[partition]? = some found) :
    store.remaining partition = found.remaining := by
  simp [remaining, lookup]

theorem entries_eq_sum (store : PartitionStore) :
    store.entries =
      ∑ partition ∈ Finset.range store.partitions.size, store.remaining partition := by
  have list : store.entries = (store.partitions.toList.map Partition.remaining).sum := by
    rw [entries, total_eq_sum]
  have positions : store.partitions.toList.map Partition.remaining =
      List.ofFn fun index : Fin store.partitions.size => store.partitions[index].remaining := by
    apply List.ext_getElem <;> simp
  rw [list, positions, List.sum_ofFn, ← Fin.sum_univ_eq_sum_range]
  apply Finset.sum_congr rfl
  intro index _
  simp [remaining]

theorem size_pos_of_entries {store : PartitionStore} (some : 0 < store.entries) :
    0 < store.partitions.size := by
  by_contra empty
  rw [entries_eq_sum, Nat.eq_zero_of_not_pos empty, Finset.range_zero, Finset.sum_empty] at some
  omega

theorem Sound.remaining_le {store : PartitionStore} (sound : store.Sound) (partition : Nat) :
    store.remaining partition ≤ store.entriesPerPartition := by
  cases lookup : store.partitions[partition]? with
  | none => simp [remaining, lookup]
  | some found =>
      have bounds := sound.bounded found (Array.mem_of_getElem? lookup)
      rw [remaining_of_getElem? lookup]
      omega

/-! One partition -/

@[simp] theorem size_drain (store : PartitionStore) (part : Located) :
    (store.drain part).partitions.size = store.partitions.size := by
  simp [drain]

theorem remaining_drain (store : PartitionStore) (part : Located) (partition : Nat) :
    (store.drain part).remaining partition =
      store.remaining partition - if partition = part.partition then part.entries else 0 := by
  simp only [remaining, drain, Array.getElem?_modify]
  by_cases same : part.partition = partition
  · subst same
    cases store.partitions[part.partition]? with
    | none => simp
    | some found =>
        simp only [if_true, Option.map_some, Option.getD_some, Partition.take]
        omega
  · simp [same, Ne.symm same]

/-- What leaves and what stays make up what was there. -/
theorem entries_drain (store : PartitionStore) (part : Located) :
    (store.drain part).entries + min part.entries (store.remaining part.partition) =
      store.entries := by
  have each (partition : Nat) : store.remaining partition =
      (store.drain part).remaining partition +
        if part.partition = partition then min part.entries (store.remaining part.partition)
        else 0 := by
    rw [remaining_drain]
    by_cases same : part.partition = partition
    · subst same
      simp only [if_true]
      omega
    · simp [same, Ne.symm same]
  have left : (∑ partition ∈ Finset.range store.partitions.size,
      if part.partition = partition then min part.entries (store.remaining part.partition) else 0) =
      min part.entries (store.remaining part.partition) := by
    rw [Finset.sum_ite_eq]
    split
    · rfl
    · rename_i outside
      rw [remaining_eq_zero (by simpa using outside), Nat.min_zero]
  rw [entries_eq_sum store, Finset.sum_congr rfl fun partition _ => each partition,
    Finset.sum_add_distrib, left, entries_eq_sum, size_drain]

theorem Sound.drain {store : PartitionStore} (sound : store.Sound) (part : Located) :
    (store.drain part).Sound where
  recordSize_pos := sound.recordSize_pos
  perPartition_pos := sound.perPartition_pos
  bounded := by
    intro partition member
    obtain ⟨position, lookup⟩ := Array.mem_iff_getElem?.mp member
    simp only [PartitionStore.drain, Array.getElem?_modify] at lookup
    split at lookup
    · obtain ⟨found, before, rfl⟩ := Option.map_eq_some_iff.mp lookup
      have bounds := sound.bounded found (Array.mem_of_getElem? before)
      simp only [Partition.take, PartitionStore.drain]
      omega
    · exact sound.bounded partition (Array.mem_of_getElem? lookup)
  pointCursor_lt := by simpa [PartitionStore.drain] using sound.pointCursor_lt
  rangeCursor_lt := by simpa [PartitionStore.drain] using sound.rangeCursor_lt

/-! Several partitions -/

@[simp] theorem drainAll_nil (store : PartitionStore) : store.drainAll [] = store := rfl

@[simp] theorem drainAll_cons (store : PartitionStore) (part : Located) (rest : List Located) :
    store.drainAll (part :: rest) = (store.drain part).drainAll rest := rfl

theorem drainAll_append (store : PartitionStore) (first second : List Located) :
    store.drainAll (first ++ second) = (store.drainAll first).drainAll second :=
  List.foldl_append

/-- The entries that a list of parts has in one partition. -/
def entriesIn (located : List Located) (partition : Nat) : Nat :=
  ((located.filter (·.partition = partition)).map Located.entries).sum

@[simp] theorem entriesIn_nil (partition : Nat) : entriesIn [] partition = 0 := rfl

theorem entriesIn_cons (part : Located) (rest : List Located) (partition : Nat) :
    entriesIn (part :: rest) partition =
      (if partition = part.partition then part.entries else 0) + entriesIn rest partition := by
  by_cases same : partition = part.partition
  · simp [entriesIn, same]
  · simp [entriesIn, same, Ne.symm same]

theorem entriesIn_append (first second : List Located) (partition : Nat) :
    entriesIn (first ++ second) partition =
      entriesIn first partition + entriesIn second partition := by
  simp [entriesIn]

theorem entriesIn_map {partitions : List Nat} (distinct : partitions.Nodup) (entries : Nat → Nat)
    (partition : Nat) :
    entriesIn (partitions.map fun partition => ⟨partition, entries partition⟩) partition =
      if partition ∈ partitions then entries partition else 0 := by
  induction partitions with
  | nil => rfl
  | cons first rest ih =>
      have once := List.nodup_cons.mp distinct
      rw [List.map_cons, entriesIn_cons, ih once.2]
      by_cases same : partition = first
      · subst same
        simp [once.1]
      · simp [same]

/-- Each partition loses what the parts have in it, together, as far as it is there. -/
theorem getElem?_drainAll (store : PartitionStore) (located : List Located) (partition : Nat) :
    (store.drainAll located).partitions[partition]? =
      store.partitions[partition]?.map fun found =>
        (found.take (entriesIn located partition)).2 := by
  induction located generalizing store with
  | nil => simp [Partition.take]
  | cons part rest ih =>
      rw [drainAll_cons, ih, drain, Array.getElem?_modify, entriesIn_cons]
      by_cases same : part.partition = partition
      · rw [if_pos same, if_pos same.symm, Option.map_map]
        congr 1
        funext found
        simp only [Function.comp_apply, Partition.take, Partition.mk.injEq, true_and]
        omega
      · rw [if_neg same, if_neg (Ne.symm same), Nat.zero_add]

theorem remaining_drainAll (store : PartitionStore) (located : List Located) (partition : Nat) :
    (store.drainAll located).remaining partition =
      store.remaining partition - entriesIn located partition := by
  rw [remaining, getElem?_drainAll, remaining]
  cases store.partitions[partition]? with
  | none => simp
  | some found =>
      simp only [Option.map_some, Option.getD_some, Partition.take]
      omega

theorem drainAll_eq (store : PartitionStore) (located : List Located) :
    store.drainAll located =
      { store with partitions := (store.drainAll located).partitions } := by
  induction located generalizing store with
  | nil => rfl
  | cons part rest ih => exact ih (store.drain part)

@[simp] theorem recordSize_drainAll (store : PartitionStore) (located : List Located) :
    (store.drainAll located).recordSize = store.recordSize := by
  rw [drainAll_eq]

@[simp] theorem invalidation_drainAll (store : PartitionStore) (located : List Located) :
    (store.drainAll located).invalidation = store.invalidation := by
  rw [drainAll_eq]

@[simp] theorem pointCursor_drainAll (store : PartitionStore) (located : List Located) :
    (store.drainAll located).pointCursor = store.pointCursor := by
  rw [drainAll_eq]

@[simp] theorem rangeCursor_drainAll (store : PartitionStore) (located : List Located) :
    (store.drainAll located).rangeCursor = store.rangeCursor := by
  rw [drainAll_eq]

@[simp] theorem size_drainAll (store : PartitionStore) (located : List Located) :
    (store.drainAll located).partitions.size = store.partitions.size := by
  induction located generalizing store with
  | nil => rfl
  | cons part rest ih => rw [drainAll_cons, ih, size_drain]

theorem entries_drainAll_le (store : PartitionStore) (located : List Located) :
    (store.drainAll located).entries ≤ store.entries := by
  induction located generalizing store with
  | nil => exact Nat.le_refl _
  | cons part rest ih =>
      have leaves := entries_drain store part
      exact (ih (store.drain part)).trans (by omega)

/-- A touch comes to what its parts have in each partition. -/
theorem drainAll_congr {store : PartitionStore} {first second : List Located}
    (same : ∀ partition, entriesIn first partition = entriesIn second partition) :
    store.drainAll first = store.drainAll second := by
  have partitions : (store.drainAll first).partitions = (store.drainAll second).partitions := by
    apply Array.ext_getElem?
    intro partition
    rw [getElem?_drainAll, getElem?_drainAll, same]
  rw [drainAll_eq, partitions, ← drainAll_eq]

theorem InRange.head {store : PartitionStore} {part : Located} {rest : List Located}
    (inside : store.InRange (part :: rest)) : part.partition < store.partitions.size :=
  inside part List.mem_cons_self

theorem InRange.drain {store : PartitionStore} {part : Located} {rest : List Located}
    (inside : store.InRange (part :: rest)) : (store.drain part).InRange rest := by
  intro other member
  rw [size_drain]
  exact inside other (List.mem_cons_of_mem part member)

theorem Sound.drainAll {store : PartitionStore} (sound : store.Sound) (located : List Located) :
    (store.drainAll located).Sound := by
  induction located generalizing store with
  | nil => exact sound
  | cons part rest ih => exact ih (sound.drain part)

/-- Entries that different partitions really have, as a request locates them. -/
structure Allots (store : PartitionStore) (located : List Located) : Prop where
  distinct : (located.map Located.partition).Nodup
  available : ∀ part ∈ located, 0 < part.entries ∧ part.entries ≤ store.remaining part.partition

theorem Allots.inRange {store : PartitionStore} {located : List Located}
    (allots : store.Allots located) : store.InRange located := by
  intro part member
  have := allots.available part member
  exact lt_size_of_remaining (by omega)

theorem entriesIn_eq_zero {located : List Located} {partition : Nat}
    (absent : partition ∉ located.map Located.partition) : entriesIn located partition = 0 := by
  have none : located.filter (·.partition = partition) = [] := by
    rw [List.filter_eq_nil_iff]
    intro part inside same
    exact absent (List.mem_map.mpr ⟨part, inside, by simpa using same⟩)
  rw [entriesIn, none]
  rfl

theorem le_entriesIn {located : List Located} {part : Located} (listed : part ∈ located) :
    part.entries ≤ entriesIn located part.partition :=
  List.le_sum_of_mem
    (List.mem_map.mpr ⟨part, List.mem_filter.mpr ⟨listed, decide_eq_true rfl⟩, rfl⟩)

theorem Allots.entriesIn_le {store : PartitionStore} {located : List Located}
    (allots : store.Allots located) (partition : Nat) :
    entriesIn located partition ≤ store.remaining partition := by
  induction located with
  | nil => exact Nat.zero_le _
  | cons part rest ih =>
      have distinct := List.nodup_cons.mp allots.distinct
      have others : store.Allots rest :=
        ⟨distinct.2, fun other member => allots.available other (List.mem_cons_of_mem _ member)⟩
      rw [entriesIn_cons]
      by_cases same : partition = part.partition
      · subst same
        have fits := (allots.available part List.mem_cons_self).2
        rw [if_pos rfl, entriesIn_eq_zero distinct.1]
        exact fits
      · rw [if_neg same, Nat.zero_add]
        exact ih others

theorem Allots.entries_drainAll {store : PartitionStore} {located : List Located}
    (allots : store.Allots located) :
    (store.drainAll located).entries + (located.map Located.entries).sum = store.entries := by
  induction located generalizing store with
  | nil => rfl
  | cons part rest ih =>
      have distinct := List.nodup_cons.mp allots.distinct
      have drained := entries_drain store part
      have fits := (allots.available part (by simp)).2
      have others : (store.drain part).Allots rest := by
        refine ⟨distinct.2, ?_⟩
        intro other member
        have different : other.partition ≠ part.partition := by
          intro same
          exact distinct.1 (List.mem_map.mpr ⟨other, member, same⟩)
        simpa [remaining_drain, different] using allots.available other (by simp [member])
      have rest := ih others
      rw [drainAll_cons, List.map_cons, List.sum_cons]
      omega

/-! New stores -/

theorem sum_neighbours (total perPartition count : Nat) :
    ∑ partition ∈ Finset.range count, min perPartition (total - partition * perPartition) =
      min (count * perPartition) total := by
  induction count with
  | zero => simp
  | succ count ih =>
      rw [Finset.sum_range_succ, ih, Nat.succ_mul]
      omega

theorem entries_layOut {store : PartitionStore} {total perPartition : Nat}
    (positive : 0 < perPartition) (laidOut : store.partitions = layOut total perPartition) :
    store.entries = total := by
  have each : ∀ partition ∈ Finset.range (unitsFor total perPartition),
      store.remaining partition = min perPartition (total - partition * perPartition) := by
    intro partition inside
    simp [remaining, laidOut, layOut, Partition.full, Finset.mem_range.mp inside]
  have size : store.partitions.size = unitsFor total perPartition := by
    rw [laidOut]
    exact Array.size_ofFn
  rw [entries_eq_sum, size, Finset.sum_congr rfl each, sum_neighbours,
    Nat.min_eq_right (le_unitsFor_mul total positive)]

theorem create_sound {τ : Type} {total recordSize partitionSize : Nat}
    {invalidation : Invalidation} {store : PartitionStore}
    (created : (create total recordSize partitionSize invalidation :
      Except (Error τ) PartitionStore) = .ok store) :
    store.Sound ∧ store.entries = total := by
  unfold create at created
  split at created
  · contradiction
  · rename_i someRecord
    simp only at created
    split at created
    · contradiction
    · rename_i someEntry
      cases created
      have positive := Nat.pos_of_ne_zero someEntry
      refine ⟨⟨Nat.pos_of_ne_zero someRecord, positive, ?_, id, id⟩, entries_layOut positive rfl⟩
      intro partition member
      obtain ⟨position, rfl⟩ := Array.mem_ofFn.mp member
      exact ⟨Nat.le_refl _, Nat.min_le_left ..⟩

end PartitionStore

end MergeCost
