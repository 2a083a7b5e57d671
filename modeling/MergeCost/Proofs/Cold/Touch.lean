import MergeCost.Cold.ColdTier
import MergeCost.Proofs.Cold.Grouping
import MergeCost.Proofs.Cold.Locate
import MergeCost.Simulation.Outcome

/-!
What a touch comes to. As long as the located partitions exist, a touch ends well on any machine,
and what it leaves of the partitions does not depend on how it is charged: both kinds of store lose
exactly the located entries.
-/

namespace MergeCost

open Sim

variable {τ : Type}

/-- The machine after so many bytes have been read and written back. -/
def Machine.rewrite [Scalar τ] (machine : Machine τ) (bytes : Nat) : Machine τ :=
  ((machine.access .read bytes).2.access .overwrite bytes).2

namespace PartitionStore

variable {store : PartitionStore} {partition : Nat}

theorem outcome_bytesOf (inside : partition < store.partitions.size) (machine : Machine τ) :
    outcome (bytesOf partition : Sim τ PartitionStore Nat) ⟨store, machine⟩ =
      .ok (.ok (store.remainingBytes partition), ⟨store, machine⟩) := by
  simp [bytesOf, remainingBytes, remaining, Array.getElem?_eq_getElem inside]

theorem outcome_take (inside : partition < store.partitions.size) (entries : Nat)
    (machine : Machine τ) :
    outcome (take partition entries : Sim τ PartitionStore Nat) ⟨store, machine⟩ =
      .ok (.ok (min entries (store.remaining partition)),
        ⟨store.drain ⟨partition, entries⟩, machine⟩) := by
  have found := Array.getElem?_eq_getElem inside
  have drained : store.partitions.setIfInBounds partition
      (store.partitions[partition].take entries).2 =
      store.partitions.modify partition fun found => (found.take entries).2 := by
    apply Array.ext_getElem?
    intro other
    rw [Array.getElem?_setIfInBounds, Array.getElem?_modify]
    by_cases same : partition = other
    · subst same
      simp [inside]
    · simp [same]
  simp only [take, outcome_bind, outcome_store, after_ok, found, outcome_update, outcome_pure,
    drained]
  simp [drain, remaining, found, Partition.take]

variable [Scalar τ]

theorem outcome_load (inside : partition < store.partitions.size) (machine : Machine τ) :
    outcome (load partition : Sim τ PartitionStore τ) ⟨store, machine⟩ =
      .ok (.ok (machine.access .read (store.remainingBytes partition)).1,
        ⟨store, (machine.access .read (store.remainingBytes partition)).2⟩) := by
  simp only [load, outcome_bind, outcome_bytesOf inside, after_ok, outcome_access]

theorem invalidate_exists {part : Located} (inside : part.partition < store.partitions.size)
    (machine : Machine τ) :
    ∃ time after, outcome (invalidate part : Sim τ PartitionStore τ) ⟨store, machine⟩ =
      .ok (.ok time, ⟨store, after⟩) := by
  cases mode : store.invalidation with
  | blockRewrite =>
      simp only [invalidate, outcome_bind, outcome_store, after_ok, mode, outcome_bytesOf inside,
        outcome_disk, outcome_access]
      exact ⟨_, _, rfl⟩
  | inPlace =>
      simp only [invalidate, outcome_bind, outcome_store, after_ok, mode, outcome_access,
        outcome_pure]
      exact ⟨_, _, rfl⟩

theorem touchOne_exists {part : Located} (inside : part.partition < store.partitions.size)
    (cost : TouchCost τ) (machine : Machine τ) :
    ∃ next after, outcome (touchOne cost part) ⟨store, machine⟩ =
        .ok (.ok next, ⟨store.drain part, after⟩) ∧
      next.entries = cost.entries + min part.entries (store.remaining part.partition) := by
  obtain ⟨time, between, invalidated⟩ := invalidate_exists inside machine
  simp only [touchOne, outcome_bind, invalidated, after_ok, outcome_load inside,
    outcome_take inside, outcome_pure]
  exact ⟨_, _, rfl, rfl⟩

theorem touchAll_exists {located : List Located} (inside : store.InRange located)
    (cost : TouchCost τ) (machine : Machine τ) :
    ∃ total after, outcome (located.foldlM touchOne cost) ⟨store, machine⟩ =
        .ok (.ok total, ⟨store.drainAll located, after⟩) ∧
      total.entries + (store.drainAll located).entries = cost.entries + store.entries := by
  induction located generalizing store cost machine with
  | nil => exact ⟨cost, machine, rfl, rfl⟩
  | cons part rest ih =>
      obtain ⟨next, between, stepped, taken⟩ := touchOne_exists inside.head cost machine
      obtain ⟨total, after, ended, entries⟩ := ih inside.drain next between
      refine ⟨total, after, ?_, ?_⟩
      · rw [List.foldlM_cons, outcome_bind, stepped, after_ok, ended]
        rfl
      · have leaves := entries_drain store part
        rw [drainAll_cons]
        omega

/-- A touch of partitions that exist ends well, and exactly the located entries leave. -/
theorem touch_exists {located : List Located} (inside : store.InRange located)
    (machine : Machine τ) :
    ∃ cost after, outcome (touch located) ⟨store, machine⟩ =
        .ok (.ok cost, ⟨store.drainAll located, after⟩) ∧
      cost.entries + (store.drainAll located).entries = store.entries ∧
      cost.loadings = if located.isEmpty then 0 else 1 := by
  cases located with
  | nil => exact ⟨.empty, machine, rfl, Nat.zero_add _, rfl⟩
  | cons part rest =>
      obtain ⟨cost, after, ran, entries⟩ := touchAll_exists inside .empty machine
      simp only [touch, List.isEmpty_cons, Bool.false_eq_true, if_false, outcome_bind, ran,
        after_ok, outcome_emit, outcome_pure]
      exact ⟨_, _, rfl, entries.trans (Nat.zero_add _), rfl⟩

end PartitionStore

namespace GroupedStore

variable {store : GroupedStore τ}

@[simp] theorem base_settleAll (store : GroupedStore τ) (located : List Located) :
    (store.settleAll located).base = store.base.drainAll located := by
  induction located generalizing store with
  | nil => rfl
  | cons part rest ih => exact ih (store.settle part)

variable [Scalar τ]

/-- The machine after partitions have been loaded, each with what it still held by then. -/
def loadAll (store : GroupedStore τ) : List Located → Machine τ → Machine τ
  | [], machine => machine
  | part :: rest, machine =>
      (store.settle part).loadAll rest
        (machine.access .read (store.base.remainingBytes part.partition)).2

theorem touchOne_exists {part : Located} (inside : part.partition < store.base.partitions.size)
    (cost : TouchCost τ) (machine : Machine τ) :
    ∃ next, outcome (touchOne cost part) ⟨store, machine⟩ =
        .ok (.ok next, ⟨store.settle part,
          (machine.access .read (store.base.remainingBytes part.partition)).2⟩) ∧
      next.entries = cost.entries + min part.entries (store.base.remaining part.partition) := by
  simp only [touchOne, onBase, outcome_bind, outcome_zoom, PartitionStore.outcome_load inside,
    Except.map, after_ok, PartitionStore.outcome_take inside, outcome_update, outcome_pure]
  exact ⟨_, rfl, rfl⟩

@[simp] theorem base_passed (store : GroupedStore τ) : store.passed.base = store.base := by
  unfold passed
  cases store.plan? <;> rfl

theorem touchAll_exists {located : List Located} (inside : store.base.InRange located)
    (cost : TouchCost τ) (machine : Machine τ) :
    ∃ total, outcome (located.foldlM touchOne cost) ⟨store, machine⟩ =
        .ok (.ok total, ⟨store.settleAll located, store.loadAll located machine⟩) ∧
      total.entries + (store.base.drainAll located).entries =
        cost.entries + store.base.entries := by
  induction located generalizing store cost machine with
  | nil => exact ⟨cost, rfl, rfl⟩
  | cons part rest ih =>
      obtain ⟨next, stepped, taken⟩ := touchOne_exists inside.head cost machine
      have settled : (store.settle part).base = store.base.drain part := rfl
      obtain ⟨total, ended, entries⟩ := ih (settled ▸ inside.drain) next
        (machine.access .read (store.base.remainingBytes part.partition)).2
      rw [settled] at entries
      refine ⟨total, ?_, ?_⟩
      · rw [List.foldlM_cons, outcome_bind, stepped, after_ok, ended]
        rfl
      · have leaves := PartitionStore.entries_drain store.base part
        rw [PartitionStore.drainAll_cons]
        omega

/-- A pass that a store plans does not break off; it rewrites the live bytes of what it takes. -/
theorem reorganize_exists (represented : store.Represented) {selected : List (EraseBlock × Nat)}
    {bins : List Bin} (planned : store.plan? = some (selected, bins)) (machine : Machine τ) :
    ∃ time event, outcome (reorganize selected bins) ⟨store, machine⟩ =
      .ok (.ok time, ⟨store.passed, (machine.rewrite
        (total ((selected.map Prod.fst).map EraseBlock.valid))).emit event⟩) := by
  have covered := represented.reclaimed_le (selects_of_plan? planned).1
  rw [passed, planned]
  simp only [reorganize, outcome_bind, outcome_store, after_ok, outcome_access,
    if_neg (Nat.not_lt.mpr covered), outcome_pure, outcome_update, outcome_emit]
  exact ⟨_, _, rfl⟩

/-- A touch takes the same entries out of grouped partitions, and a pass may follow. -/
theorem touch_exists (represented : store.Represented) {located : List Located}
    (inside : store.base.InRange located) (machine : Machine τ) :
    ∃ cost store' after, outcome (touch located) ⟨store, machine⟩ =
        .ok (.ok cost, ⟨store', after⟩) ∧
      store'.Represented ∧ store'.base = store.base.drainAll located ∧
      cost.entries + store'.base.entries = store.base.entries ∧
      cost.loadings = if located.isEmpty then 0 else 1 := by
  cases located with
  | nil => exact ⟨.empty, store, machine, rfl, represented, rfl, Nat.zero_add _, rfl⟩
  | cons part rest =>
      have settledWell := represented.settleAll (part :: rest)
      have base := store.base_settleAll (part :: rest)
      obtain ⟨cost, ran, entries⟩ := touchAll_exists inside .empty machine
      rw [← base] at entries
      simp only [touch, List.isEmpty_cons, Bool.false_eq_true, if_false, outcome_bind, ran,
        after_ok, outcome_store]
      cases planned : (store.settleAll (part :: rest)).plan? with
      | none => exact ⟨_, _, _, rfl, settledWell, base, entries.trans (Nat.zero_add _), rfl⟩
      | some plan =>
          obtain ⟨time, event, reorganized⟩ :=
            reorganize_exists settledWell planned (store.loadAll (part :: rest) machine)
          simp only [outcome_bind, reorganized, after_ok, outcome_pure]
          have kept := (store.settleAll (part :: rest)).base_passed
          refine ⟨_, _, _, rfl, settledWell.passed, kept.trans base, ?_, rfl⟩
          rw [kept]
          exact entries.trans (Nat.zero_add _)

end GroupedStore

end MergeCost
