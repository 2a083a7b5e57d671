import Mathlib
import MergeCost.Proofs.Cold.Tier
import MergeCost.Simulation.Yields

/-!
Passes of reorganization. A touch makes at most one of them, and each one frees a block; entries are
stale only if they have left, and all that have left are stale until the first pass.
-/

namespace MergeCost

open Sim

variable {τ : Type}

namespace GroupedStore

/-- Between two states of a store so many passes have been made. -/
structure Advances (before : GroupedStore τ) (passes : Nat) (after : GroupedStore τ) : Prop where
  passes_eq : after.passes = before.passes + passes
  blocks_le : after.blocks.length + passes ≤ before.blocks.length
  blocks_eq : passes = 0 → after.blocks.length = before.blocks.length
  stale_le : after.staleEntries + after.base.entries ≤ before.staleEntries + before.base.entries
  stale_eq : passes = 0 →
    after.staleEntries + after.base.entries = before.staleEntries + before.base.entries

variable {store first second third : GroupedStore τ}

theorem Advances.nothing (store : GroupedStore τ) : store.Advances 0 store :=
  ⟨rfl, Nat.le_refl _, fun _ => rfl, Nat.le_refl _, fun _ => rfl⟩

theorem Advances.trans {earlier later : Nat} (start : first.Advances earlier second)
    (rest : second.Advances later third) : first.Advances (earlier + later) third := by
  have passes := rest.passes_eq.trans (congrArg (· + later) start.passes_eq)
  have blocks := start.blocks_le
  have moreBlocks := rest.blocks_le
  refine ⟨by omega, by omega, ?_, rest.stale_le.trans start.stale_le, ?_⟩
  · intro none
    exact (rest.blocks_eq (by omega)).trans (start.blocks_eq (by omega))
  · intro none
    exact (rest.stale_eq (by omega)).trans (start.stale_eq (by omega))

theorem create_blocks [Scalar τ] {base : PartitionStore} {blockSize : Nat}
    {policy : ReorganizationPolicy τ} (created : create base blockSize policy = .ok store) :
    store.base = base ∧ store.passes = 0 ∧ store.staleEntries = 0 ∧
      store.blocks.length = unitsFor base.partitions.size (partitionsPerBlock base blockSize) := by
  obtain ⟨_, _, grouped⟩ := Except.exists_of_bind created
  cases grouped
  exact ⟨rfl, rfl, rfl, by simp [group]⟩

/-! Marking makes no pass -/

theorem settle_advances (store : GroupedStore τ) (part : Located) :
    store.Advances 0 (store.settle part) := by
  have leaves := PartitionStore.entries_drain store.base part
  have blocks : (store.settle part).blocks.length = store.blocks.length := by
    simp only [settle, markStale]
    split
    · exact List.length_modify ..
    · rfl
  have stale : (store.settle part).staleEntries + (store.settle part).base.entries =
      store.staleEntries + store.base.entries := by
    simp only [settle, markStale]
    omega
  exact ⟨rfl, blocks.le, fun _ => blocks, stale.le, fun _ => stale⟩

theorem settleAll_advances (store : GroupedStore τ) (located : List Located) :
    store.Advances 0 (store.settleAll located) := by
  induction located generalizing store with
  | nil => exact .nothing store
  | cons part rest ih => exact (store.settle_advances part).trans (ih (store.settle part))

/-! A pass -/

theorem length_repacked {selected : List (EraseBlock × Nat)} (selects : store.Selects selected) :
    (store.repacked selected).length + selected.length =
      store.blocks.length + (store.repack (selected.map Prod.fst)).length := by
  have after := (store.replaced_perm (selected.map Prod.snd)
    (store.repack (selected.map Prod.fst))).length_eq
  have before := selects.blocks_perm.length_eq
  simp only [repacked, freshBlocks, List.length_append, List.length_map] at after before ⊢
  omega

theorem reorganized_advances {selected : List (EraseBlock × Nat)}
    (selects : store.Selects selected)
    (fewer : (store.repack (selected.map Prod.fst)).length < selected.length) :
    store.Advances 1 (store.reorganized selected (store.repack (selected.map Prod.fst))) := by
  have blocks := length_repacked selects
  simp only [repacked] at blocks
  refine ⟨rfl, ?_, fun none => ?_, ?_, fun none => ?_⟩
  · simp only [reorganized]
    omega
  · contradiction
  · simp only [reorganized]
    omega
  · contradiction

variable [Scalar τ]

/-- Whether a pass is due, as the number of passes that follow. -/
def due (store : GroupedStore τ) : Nat := if store.plan?.isSome then 1 else 0

theorem due_le_one (store : GroupedStore τ) : store.due ≤ 1 := by
  unfold due
  split <;> omega

/-- A pass is planned only if it fills fewer blocks than it takes. -/
theorem lt_of_plan? {selected : List (EraseBlock × Nat)} {bins : List Bin}
    (planned : store.plan? = some (selected, bins)) : bins.length < selected.length := by
  rw [plan?_eq] at planned
  split at planned
  · contradiction
  · split at planned
    · cases planned
      assumption
    · contradiction

theorem passed_advances (store : GroupedStore τ) : store.Advances store.due store.passed := by
  unfold due passed
  cases planned : store.plan? with
  | none => exact .nothing store
  | some plan =>
      obtain ⟨selected, bins⟩ := plan
      obtain ⟨selects, rfl⟩ := selects_of_plan? planned
      exact reorganized_advances selects (lt_of_plan? planned)

/-! Touches -/

/-- What a touch leaves of a store. -/
def touched (store : GroupedStore τ) (located : List Located) : GroupedStore τ :=
  if located.isEmpty then store else (store.settleAll located).passed

theorem touchOne_invalidations (cost : TouchCost τ) (part : Located)
    (world : World τ (GroupedStore τ)) :
    (touchOne cost part).Yields world fun next _ => next.invalidations = cost.invalidations := by
  simp only [touchOne, yields_bind, yields_update, yields_pure]
  exact fun _ _ _ _ _ _ => trivial

theorem touchAll_invalidations (located : List Located) (world : World τ (GroupedStore τ)) :
    (located.foldlM touchOne .empty).Yields world fun cost _ => cost.invalidations = 0 := by
  let holds (cost : TouchCost τ) (_ : World τ (GroupedStore τ)) : Prop := cost.invalidations = 0
  have start : holds .empty world := rfl
  refine yields_foldlM ?_ start
  intro part cost between none
  exact (touchOne_invalidations cost part between).mono fun next _ same => same.trans none

/-- A touch makes at most one pass, and counts an invalidation just if it makes one. -/
theorem touch_advances (represented : store.Represented) {located : List Located}
    (inside : store.base.InRange located) (machine : Machine τ) :
    ∃ cost after, outcome (touch located) ⟨store, machine⟩ =
        .ok (.ok cost, ⟨store.touched located, after⟩) ∧
      store.Advances cost.invalidations (store.touched located) ∧
      cost.invalidations = if located.isEmpty then 0 else (store.settleAll located).due := by
  cases located with
  | nil => exact ⟨.empty, machine, rfl, .nothing store, rfl⟩
  | cons part rest =>
      obtain ⟨cost, ran, _⟩ := touchAll_exists inside .empty machine
      have none := touchAll_invalidations (part :: rest) ⟨store, machine⟩ cost _ ran
      have advances := (store.settleAll_advances (part :: rest)).trans
        (store.settleAll (part :: rest)).passed_advances
      rw [Nat.zero_add] at advances
      simp only [touch, touched, List.isEmpty_cons, Bool.false_eq_true, if_false, outcome_bind, ran,
        after_ok, outcome_store]
      cases planned : (store.settleAll (part :: rest)).plan? with
      | none =>
          have idle : (store.settleAll (part :: rest)).due = 0 := by simp [due, planned]
          have same : (store.settleAll (part :: rest)).passed = store.settleAll (part :: rest) := by
            simp only [passed, planned]
          rw [idle, same] at advances
          rw [idle, same]
          simp only [outcome_pure, none]
          exact ⟨_, _, rfl, advances, rfl⟩
      | some plan =>
          have pass : (store.settleAll (part :: rest)).due = 1 := by simp [due, planned]
          obtain ⟨time, event, reorganized⟩ := reorganize_exists
            (represented.settleAll (part :: rest)) planned (store.loadAll (part :: rest) machine)
          rw [pass] at advances
          rw [pass]
          simp only [outcome_bind, reorganized, after_ok, outcome_pure]
          exact ⟨_, _, rfl, advances, rfl⟩

end GroupedStore

namespace PartitionStore

/-- Partitions alone are invalidated whenever they are loaded. -/
theorem touch_counts [Scalar τ] (located : List Located) (world : World τ PartitionStore) :
    (touch located).Yields world fun cost _ => cost.invalidations = cost.loadings := by
  rw [touch, yields_ite]
  refine ⟨fun _ => (yields_pure _ _).mpr rfl, fun _ => ?_⟩
  simp only [yields_bind, yields_emit, yields_pure]
  exact fun _ _ _ => trivial

end PartitionStore

namespace ColdTier

/-- How a tier goes on under so many touches that count so many invalidations: each of them is one
where partitions are alone, and the passes are where they are grouped. -/
inductive Goes : ColdTier τ → Nat → Nat → ColdTier τ → Prop
  | plain {before after : PartitionStore} {touches : Nat}
      (recordSize_eq : after.recordSize = before.recordSize)
      (invalidation_eq : after.invalidation = before.invalidation) :
      Goes (.plain before) touches touches (.plain after)
  | grouped {before after : GroupedStore τ} {touches passes : Nat}
      (advances : before.Advances passes after) (most : passes ≤ touches) :
      Goes (.grouped before) touches passes (.grouped after)

variable {tier first second third left : ColdTier τ}

theorem Goes.seek (tier : ColdTier τ) (point range : Nat) :
    tier.Goes 0 0 (withBase (tier.base.withCursors point range) tier) := by
  cases tier with
  | plain store => exact .plain rfl rfl
  | grouped store =>
      exact .grouped ⟨rfl, Nat.le_refl _, fun _ => rfl, Nat.le_refl _, fun _ => rfl⟩ (Nat.le_refl 0)

theorem Goes.nothing (tier : ColdTier τ) : tier.Goes 0 0 tier := by
  cases tier with
  | plain store => exact .plain rfl rfl
  | grouped store => exact .grouped (.nothing store) (Nat.le_refl 0)

theorem Goes.trans {touches invalidations moreTouches moreInvalidations : Nat}
    (start : first.Goes touches invalidations second)
    (rest : second.Goes moreTouches moreInvalidations third) :
    first.Goes (touches + moreTouches) (invalidations + moreInvalidations) third := by
  cases start with
  | plain recordSize invalidation =>
      cases rest with
      | plain nextRecordSize nextInvalidation =>
          exact .plain (nextRecordSize.trans recordSize) (nextInvalidation.trans invalidation)
  | grouped advances most =>
      cases rest with
      | grouped nextAdvances nextMost =>
          exact .grouped (advances.trans nextAdvances) (Nat.add_le_add most nextMost)

theorem Goes.of_grouped {store : GroupedStore τ} {touches invalidations : Nat}
    (goes : (ColdTier.grouped store).Goes touches invalidations left) :
    ∃ after, left = .grouped after ∧ store.Advances invalidations after ∧
      invalidations ≤ touches := by
  cases goes with
  | grouped advances most => exact ⟨_, rfl, advances, most⟩

variable [Scalar τ] {located : List Located} {machine after : Machine τ} {cost : TouchCost τ}

/-- A touch counts as one loading, and as one invalidation or as the passes that it has made. -/
theorem touch_goes (valid : tier.Valid) (something : located ≠ [])
    (inside : tier.base.InRange located)
    (touched : outcome (touch located) ⟨tier, machine⟩ = .ok (.ok cost, ⟨left, after⟩)) :
    tier.Goes 1 cost.invalidations left ∧ cost.loadings = 1 := by
  have some : located.isEmpty = false := by simpa using something
  have loading : cost.loadings = 1 := by
    obtain ⟨_, _, _, ran, _, _, _, loadings⟩ := touch_exists valid inside machine
    rw [touched, some] at *
    cases ran
    exact loadings
  refine ⟨?_, loading⟩
  cases tier with
  | plain store =>
      have inside : store.InRange located := inside
      obtain ⟨spent, finish, ran, _⟩ := PartitionStore.touch_exists inside machine
      have counts := PartitionStore.touch_counts located ⟨store, machine⟩ spent _ ran
      rw [outcome_touch_plain ran] at touched
      cases touched
      rw [counts, loading]
      exact .plain (store.recordSize_drainAll located) (store.invalidation_drainAll located)
  | grouped store =>
      obtain ⟨spent, finish, ran, advances, counted⟩ :=
        GroupedStore.touch_advances valid inside machine
      rw [outcome_touch_grouped ran] at touched
      cases touched
      refine .grouped advances ?_
      rw [counted, some]
      exact (store.settleAll located).due_le_one

end ColdTier

end MergeCost
