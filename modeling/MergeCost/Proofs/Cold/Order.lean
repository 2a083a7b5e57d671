import MergeCost.Proofs.Cold.Reclaim
import MergeCost.Proofs.Cold.Transfers
import MergeCost.Proofs.Device.Transfers

/-!
The order of located partitions. What leaves one partition has no bearing on another, not even on
one in the same erase block, where stale bytes add up; a pass is decided by what all of them leave.
-/

namespace MergeCost

open Sim

variable {τ : Type}

namespace EraseBlock

theorem invalidate_comm (block : EraseBlock) (bytes more : Nat) :
    (block.invalidate bytes).invalidate more = (block.invalidate more).invalidate bytes := by
  simp only [invalidate, EraseBlock.mk.injEq, true_and, and_true]
  omega

theorem modify_comm (blocks : List EraseBlock) (position next bytes more : Nat) :
    (blocks.modify position (invalidate · bytes)).modify next (invalidate · more) =
      (blocks.modify next (invalidate · more)).modify position (invalidate · bytes) := by
  by_cases same : position = next
  · subst same
    rw [List.modify_modify_eq, List.modify_modify_eq]
    congr 1
    funext block
    exact block.invalidate_comm bytes more
  · exact List.modify_modify_ne _ _ _ same

end EraseBlock

namespace PartitionStore

variable {first second : List Located}

theorem entriesIn_perm (same : first.Perm second) (partition : Nat) :
    entriesIn first partition = entriesIn second partition :=
  ((same.filter _).map Located.entries).sum_eq

theorem drainAll_perm (store : PartitionStore) (same : first.Perm second) :
    store.drainAll first = store.drainAll second :=
  drainAll_congr (entriesIn_perm same)

theorem inTurn_perm {each : PartitionStore → Located → List Transfer} (separable : Separable each)
    (store : PartitionStore) (same : first.Perm second)
    (distinct : (first.map Located.partition).Nodup) :
    (inTurn each store first).Perm (inTurn each store second) := by
  have others : (second.map Located.partition).Nodup := (same.map _).nodup_iff.mp distinct
  rw [inTurn_eq_flatMap separable store distinct, inTurn_eq_flatMap separable store others]
  exact same.flatMap_right _

end PartitionStore

namespace GroupedStore

theorem markStale_comm (store : GroupedStore τ) (partition taken other more : Nat) :
    (store.markStale partition taken).markStale other more =
      (store.markStale other more).markStale partition taken := by
  simp only [markStale]
  congr 1
  case e_blocks =>
    -- Both partitions may be in one block, in which their stale bytes add up.
    cases (store.holder[partition]?).join with
    | none => rfl
    | some position =>
        cases (store.holder[other]?).join with
        | none => rfl
        | some next => exact EraseBlock.modify_comm _ _ _ _ _
  case e_staleEntries => omega

theorem settle_comm (store : GroupedStore τ) {first second : Located}
    (different : first.partition ≠ second.partition) :
    (store.settle first).settle second = (store.settle second).settle first := by
  have drained : (store.base.drain first).drain second = (store.base.drain second).drain first :=
    store.base.drainAll_perm (.swap second first [])
  have marked (part other : Located) (apart : part.partition ≠ other.partition) :
      (store.settle part).settle other =
        (({ store with base := (store.base.drain part).drain other }.markStale part.partition
          (min part.entries (store.base.remaining part.partition))).markStale other.partition
          (min other.entries (store.base.remaining other.partition))) := by
    rw [← store.base.remaining_drain_of_ne apart]
    rfl
  rw [marked first second different, marked second first different.symm, drained, markStale_comm]

variable {first second : List Located}

theorem settleAll_perm (store : GroupedStore τ) (same : first.Perm second)
    (distinct : (first.map Located.partition).Nodup) :
    store.settleAll first = store.settleAll second := by
  apply same.foldl_eq'
  intro part listed other alsoListed between
  by_cases one : part.partition = other.partition
  · rw [List.inj_on_of_nodup_map distinct listed alsoListed one]
  · exact between.settle_comm one

end GroupedStore

namespace ColdTier

variable [Scalar τ] {first second : List Located}

theorem touched_perm (tier : ColdTier τ) (same : first.Perm second)
    (distinct : (first.map Located.partition).Nodup) :
    tier.touched first = tier.touched second := by
  cases tier with
  | plain store => rw [touched, touched, store.drainAll_perm same]
  | grouped store =>
      rw [touched, touched, GroupedStore.touched, GroupedStore.touched, same.isEmpty_eq,
        store.settleAll_perm same distinct]

theorem touching_perm (tier : ColdTier τ) (blockSize : Nat) (same : first.Perm second)
    (distinct : (first.map Located.partition).Nodup) :
    (tier.touching blockSize first).Perm (tier.touching blockSize second) := by
  cases tier with
  | plain store =>
      exact PartitionStore.inTurn_perm (PartitionStore.separable_touching blockSize) store same
        distinct
  | grouped store =>
      rw [touching, touching, GroupedStore.touching, GroupedStore.touching, same.isEmpty_eq,
        store.settleAll_perm same distinct]
      split
      · exact .refl _
      · exact (PartitionStore.inTurn_perm PartitionStore.separable_loading store.base same
          distinct).append_right _

theorem invalidationsOf_perm (tier : ColdTier τ) (same : first.Perm second)
    (distinct : (first.map Located.partition).Nodup) :
    tier.invalidationsOf first = tier.invalidationsOf second := by
  cases tier with
  | plain store => rfl
  | grouped store => rw [invalidationsOf, invalidationsOf, store.settleAll_perm same distinct]

theorem roomy_perm {tier : ColdTier τ} {disk other : Disk τ} (agrees : disk.Agrees other)
    (same : first.Perm second) (distinct : (first.map Located.partition).Nodup) :
    tier.Roomy first disk ↔ tier.Roomy second other := by
  have nothing : first = [] ↔ second = [] := by
    rw [← List.isEmpty_iff, ← List.isEmpty_iff, same.isEmpty_eq]
  cases tier with
  | plain store => simp only [Roomy, ne_eq, nothing, agrees.fits_iff, same.mem_iff]
  | grouped store =>
      simp only [Roomy, ne_eq, nothing, agrees.fits_iff, store.settleAll_perm same distinct]

/-- Partitions may be touched in any order. The tier that is left is the same, with all its blocks
and a pass if one was due; so are the entries that left and what the touch counts as, the wear and
the dirty pages, and all counts of the disk. Only times may differ. If what is counted does not fit
into words, then it does not in either order. -/
theorem touch_perm {tier : ColdTier τ} (reachable : tier.ReachableInWords)
    (same : first.Perm second) (distinct : (first.map Located.partition).Nodup)
    (inside : tier.base.InRange first) (machine : Machine τ) :
    ∃ left cost after otherCost otherAfter,
      tier.TouchesInWords first machine cost ⟨left, after⟩ ∧
      tier.TouchesInWords second machine otherCost ⟨left, otherAfter⟩ ∧
      (tier.Roomy first after.disk ↔ tier.Roomy second otherAfter.disk) ∧
      cost.entries = otherCost.entries ∧
      cost.invalidations = otherCost.invalidations ∧
      cost.loadings = otherCost.loadings ∧
      after.disk.Agrees otherAfter.disk := by
  have valid := reachable.valid
  have othersInside : tier.base.InRange second :=
    fun part listed => inside part (same.mem_iff.mpr listed)
  obtain ⟨cost, performs, entries, invalidations, loadings⟩ :=
    touch_performs valid inside machine.disk.device
  obtain ⟨otherCost, performsOther, otherEntries, otherInvalidations, otherLoadings⟩ :=
    touch_performs valid othersInside machine.disk.device
  obtain ⟨after, ran, transferred⟩ := performs machine rfl
  obtain ⟨otherAfter, ranOther, otherTransferred⟩ := performsOther machine rfl
  rw [← tier.touched_perm same distinct] at ranOther
  have agrees : after.disk.Agrees otherAfter.disk := by
    rw [transferred, otherTransferred]
    exact machine.disk.transferAll_perm (tier.touching_perm _ same distinct)
  refine ⟨_, cost, after, otherCost, otherAfter, touchesInWords_of_touch valid inside ran,
    touchesInWords_of_touch valid othersInside ranOther, roomy_perm agrees same distinct,
    ?_, ?_, ?_, agrees⟩
  · rw [← tier.base.drainAll_perm same] at otherEntries
    omega
  · rw [invalidations, otherInvalidations, same.isEmpty_eq, tier.invalidationsOf_perm same distinct]
  · rw [loadings, otherLoadings, same.isEmpty_eq]

/-- Two orders of a touch that ends in a pass, on a drive with a dirty page. -/
theorem touch_perm_paired :
    let tier : ColdTier Rat := .grouped GroupedStore.paired
    let machine : Machine Rat := .create (.create (.ssd ⟨⟨"SSD", 2, 6, 1, 2, 1, 1, 3, 9⟩, 1, 0⟩))
    tier.ReachableInWords ∧ (GroupedStore.paired.settleAll [⟨1, 2⟩, ⟨3, 4⟩]).due = 1 ∧
    ∃ left cost after otherCost otherAfter,
      outcome (touchInWords [⟨1, 2⟩, ⟨3, 4⟩]) ⟨tier, machine⟩ = .ok (.ok cost, ⟨left, after⟩) ∧
      outcome (touchInWords [⟨3, 4⟩, ⟨1, 2⟩]) ⟨tier, machine⟩ =
        .ok (.ok otherCost, ⟨left, otherAfter⟩) ∧
      cost.entries = otherCost.entries ∧ cost.invalidations = otherCost.invalidations ∧
      cost.loadings = otherCost.loadings ∧ after.disk.Agrees otherAfter.disk := by
  intro tier machine
  have inside : tier.base.InRange [⟨1, 2⟩, ⟨3, 4⟩] := by
    simp [PartitionStore.InRange, tier, base, GroupedStore.paired]
  obtain ⟨done, ended⟩ : ∃ done,
      outcome (touchInWords [⟨1, 2⟩, ⟨3, 4⟩]) ⟨tier, machine⟩ = .ok done := by
    refine ⟨?_, ?ended⟩
    case ended => cbv; rfl
  obtain ⟨otherDone, otherEnded⟩ : ∃ done,
      outcome (touchInWords [⟨3, 4⟩, ⟨1, 2⟩]) ⟨tier, machine⟩ = .ok done := by
    refine ⟨?_, ?ended⟩
    case ended => cbv; rfl
  obtain ⟨left, cost, after, otherCost, otherAfter, touches, otherTouches, -, agree⟩ :=
    touch_perm GroupedStore.paired_reachable (.swap _ _ _) (by decide) inside machine
  exact ⟨GroupedStore.paired_reachable, by cbv, left, cost, after, otherCost, otherAfter,
    ended.trans (touches.limits.eq_of_ok ended).symm,
    otherEnded.trans (otherTouches.limits.eq_of_ok otherEnded).symm, agree⟩

end ColdTier

end MergeCost
