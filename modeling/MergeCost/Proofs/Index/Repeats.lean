import MergeCost.Proofs.Cold.Transfers
import MergeCost.Proofs.Device.Transfers
import MergeCost.Proofs.Index.Reachable
import MergeCost.Proofs.Index.Traversals

/-!
Repeats of a find around a B+tree. The cold part of a find is touched once, however often the find
is repeated; repeats only read nodes of the tree, before the touch for entries that are hot already
and after it for entries that have moved. Neither the touch nor the insert notices these reads.
-/

namespace MergeCost

open Sim

namespace Merging

section Sides

variable {τ σ : Type} [EntryStore τ σ]

/-- Two states that differ in nothing that a touch of cold entries depends on or leaves behind. -/
structure SameCold (first second : Merging τ σ) : Prop where
  cold_eq : first.cold = second.cold
  carry_eq : first.carry = second.carry
  hot_eq : EntryStore.entries first.wrapped = EntryStore.entries second.wrapped
  expectedEntries_eq : first.expectedEntries = second.expectedEntries
  invalidation_eq : first.ledger.tally .invalidation = second.ledger.tally .invalidation
  loading_eq : first.ledger.tally .loading = second.ledger.tally .loading

namespace SameCold

variable {first second third : Merging τ σ}

theorem symm (same : first.SameCold second) : second.SameCold first :=
  ⟨same.cold_eq.symm, same.carry_eq.symm, same.hot_eq.symm, same.expectedEntries_eq.symm,
    same.invalidation_eq.symm, same.loading_eq.symm⟩

theorem trans (start : first.SameCold second) (rest : second.SameCold third) :
    first.SameCold third :=
  ⟨start.cold_eq.trans rest.cold_eq, start.carry_eq.trans rest.carry_eq,
    start.hot_eq.trans rest.hot_eq, start.expectedEntries_eq.trans rest.expectedEntries_eq,
    start.invalidation_eq.trans rest.invalidation_eq, start.loading_eq.trans rest.loading_eq⟩

end SameCold

variable [Scalar τ] {merging : Merging τ σ}

theorem split_performs {entries : Nat} {parts : Split τ}
    (found : Split.of entries merging.cold.entries (EntryStore.entries merging.wrapped)
      merging.carry = .ok parts) (device : Device τ) :
    (split entries).Performs merging device parts { merging with carry := parts.carry } [] :=
  fun machine _ => ⟨machine, outcome_split found machine, rfl⟩

theorem checkEntries_performs (expected : merging.expectedEntries = merging.entries)
    (device : Device τ) :
    (checkEntries : Sim τ (Merging τ σ) Unit).Performs merging device () merging [] := by
  refine .store_bind ?_
  rw [if_neg (not_not.mpr expected.symm)]
  exact .pure _ _ _

theorem close_performs (expected : merging.expectedEntries = merging.entries) (request : Request)
    (time : τ) (device : Device τ) :
    (do
      record (.request request) time 1
      checkEntries
      return time : Sim τ (Merging τ σ) τ).Performs merging device time
        { merging with ledger := merging.ledger.record (.request request) time 1 } [] := by
  refine .idle_bind (.update _ _ _) (.bind_pure (checkEntries_performs ?_ device) _)
  exact expected

omit [EntryStore τ σ] in
/-- A touch depends on the cold side alone. -/
theorem touchCold_performs {tier : ColdTier τ} (valid : tier.Valid) (lookup : Lookup)
    (entries : Nat) (device : Device τ) :
    ∃ located cost cold transfers, cost.entries = min entries tier.entries ∧
      cold.entries + cost.entries = tier.entries ∧
      ∀ merging : Merging τ σ, merging.cold = tier →
        (touchCold lookup entries).Performs merging device cost
          { merging with cold, ledger := charged merging.ledger located cost } transfers := by
  obtain ⟨located, moved, locates, movedValid, allots, same, sum⟩ :=
    ColdTier.locate_performs valid lookup entries device
  obtain ⟨cost, touches, left, _⟩ := ColdTier.touch_performs movedValid allots.inRange device
  have drained := allots.entries_drainAll
  have entriesAfter : (moved.touched located).entries = (moved.base.drainAll located).entries := by
    rw [ColdTier.entries, ColdTier.base_touched]
  have entriesBefore : moved.base.entries = moved.entries := rfl
  refine ⟨located, cost, moved.touched located, moved.touching device.blockSize located, by omega,
    by omega, ?_⟩
  intro merging isTier
  subst isTier
  refine locates.zoom.idle_bind (touches.zoom.bind_idle ?_)
  cases nothing : located.isEmpty with
  | true =>
      simp only [charged, nothing, Bool.not_true, Bool.false_eq_true, if_false, if_true]
      exact .pure _ _ _
  | false =>
      simp only [charged, nothing, Bool.not_false, Bool.false_eq_true, if_false, if_true]
      exact .idle_bind (.update _ _ _) (.bind_pure (.update _ _ _) _)

end Sides

variable {τ : Type} [Scalar τ]

theorem findWrapped_performs (merging : Merging τ (BTree τ)) (lookup : Lookup)
    (entries repeats : Nat) (time : τ) (device : Device τ) :
    ∃ total ledger, (findWrapped lookup entries repeats time).Performs merging device total
      { merging with wrapped := { merging.wrapped with ledger } }
      (merging.wrapped.readings lookup entries repeats) := by
  obtain ⟨taken, ledger, found⟩ := merging.wrapped.find_performs lookup entries repeats device
  exact ⟨time + taken, ledger, found.zoom.bind_pure _⟩

theorem findHot_performs (merging : Merging τ (BTree τ)) (lookup : Lookup)
    (entries repeats : Nat) (device : Device τ) :
    ∃ total ledger, (if entries = 0 then pure Scalar.zero
        else findWrapped lookup entries repeats Scalar.zero).Performs merging device total
      { merging with wrapped := { merging.wrapped with ledger } }
      (merging.wrapped.readings lookup entries repeats) := by
  by_cases nothing : entries = 0
  · rw [if_pos nothing, nothing, BTree.readings_zero]
    exact ⟨Scalar.zero, merging.wrapped.ledger, .pure _ _ _⟩
  · rw [if_neg nothing]
    exact merging.findWrapped_performs lookup entries repeats Scalar.zero device

theorem insertWrapped_performs (merging : Merging τ (BTree τ)) (entries : Nat)
    (device : Device τ) :
    ∃ time ledger, (onWrapped (EntryStore.insert entries)).Performs merging device time
      { merging with
        wrapped := { merging.wrapped with entries := merging.wrapped.entries + entries, ledger } }
      (merging.wrapped.inserting entries) := by
  obtain ⟨time, ledger, inserted⟩ := merging.wrapped.insert_performs entries device
  exact ⟨time, ledger, inserted.zoom⟩

/-- A state in which entries have moved to the tree, with the ledgers of both. -/
def withMoved (merging : Merging τ (BTree τ)) (cold : ColdTier τ) (entries : Nat)
    (ledger treeLedger : OperationLedger τ) : Merging τ (BTree τ) :=
  { merging with
    cold
    wrapped :=
      { merging.wrapped with
        entries := merging.wrapped.entries + entries
        ledger := treeLedger }
    ledger }

/-- What has moved, and the cost of the touch with it, is decided by the cold side alone. -/
theorem migrate_performs {tier : ColdTier τ} (valid : tier.Valid) (lookup : Lookup) {entries : Nat}
    (enough : entries ≤ tier.entries) (device : Device τ) :
    ∃ located cost cold transfers, cold.entries + entries = tier.entries ∧
      ∀ (merging : Merging τ (BTree τ)) (time : τ), merging.cold = tier → ∃ total treeLedger,
        (migrate lookup entries time).Performs merging device (entries, total)
          (merging.withMoved cold entries (charged merging.ledger located cost) treeLedger)
          (transfers ++ merging.wrapped.inserting entries) := by
  obtain ⟨located, cost, cold, transfers, moved, left, touches⟩ :=
    touchCold_performs valid lookup entries device
  obtain rfl : cost.entries = entries := by omega
  refine ⟨located, cost, cold, transfers, left, ?_⟩
  intro merging time isTier
  let touched : Merging τ (BTree τ) :=
    { merging with cold, ledger := charged merging.ledger located cost }
  obtain ⟨inserting, treeLedger, inserted⟩ :=
    touched.insertWrapped_performs cost.entries (device.transferAll transfers)
  refine ⟨time + cost.time + inserting, treeLedger, ?_⟩
  exact (touches merging isTier).bind (inserted.bind_pure _)

/-- The cold part of a find: the touch and the insert, and then the reads of all repeats. -/
theorem findCold_performs {tier : ColdTier τ} (valid : tier.Valid) (lookup : Lookup)
    {entries : Nat} (enough : entries ≤ tier.entries) (device : Device τ) :
    ∃ located cost cold transfers, cold.entries + entries = tier.entries ∧
      ∀ (merging : Merging τ (BTree τ)) (repeats : Nat) (time : τ), merging.cold = tier →
        0 < repeats → ∃ total treeLedger,
        (if entries = 0 then pure time else findCold lookup entries repeats time).Performs merging
          device total
          (merging.withMoved cold entries (charged merging.ledger located cost) treeLedger)
          (transfers ++ merging.wrapped.inserting entries ++
            (merging.wrapped.withEntries (merging.wrapped.entries + entries)).readings lookup
              entries (repeats - 1)) := by
  by_cases nothing : entries = 0
  · subst nothing
    refine ⟨[], .empty, tier, [], rfl, ?_⟩
    intro merging repeats time isTier _
    subst isTier
    rw [if_pos rfl, BTree.readings_zero]
    exact ⟨time, merging.wrapped.ledger, .pure _ _ _⟩
  · obtain ⟨located, cost, cold, transfers, left, migrates⟩ :=
      migrate_performs valid lookup enough device
    refine ⟨located, cost, cold, transfers, left, ?_⟩
    intro merging repeats time isTier some
    obtain ⟨total, treeLedger, migrated⟩ := migrates merging time isTier
    rw [if_neg nothing]
    by_cases again : 1 < repeats
    · obtain ⟨repeated, later, found⟩ :=
        (merging.withMoved cold entries (charged merging.ledger located cost)
          treeLedger).findWrapped_performs lookup entries (repeats - 1) total
          (device.transferAll (transfers ++ merging.wrapped.inserting entries))
      refine ⟨repeated, later, migrated.bind ?_⟩
      simp only [if_pos again]
      exact found
    · obtain rfl : repeats = 1 := by omega
      exact ⟨total, treeLedger, migrated.bind (.pure _ _ _)⟩

theorem sameCold_record (merging : Merging τ (BTree τ)) (request : Request) (time : τ) :
    { merging with ledger := merging.ledger.record (.request request) time 1 }.SameCold
      merging := by
  refine ⟨rfl, rfl, rfl, rfl, ?_, ?_⟩ <;>
    rw [OperationLedger.record, OperationLedger.tally_modify, if_neg Operation.noConfusion]

/-- All repeats of a find leave the same behind and transfer the same, but for reads of nodes before
and after. -/
theorem find_performs {merging : Merging τ (BTree τ)} (settled : merging.Settled fun _ => True)
    (lookup : Lookup) (entries : Nat) (device : Device τ) :
    ∃ (left : Merging τ (BTree τ)) (hot moved : Nat) (transfers : List Transfer),
      ∀ repeats, 0 < repeats → ∃ time after,
        (find lookup entries repeats).Performs merging device time after
          (merging.wrapped.readings lookup hot repeats ++ (transfers ++
            (merging.wrapped.withEntries (merging.wrapped.entries + moved)).readings lookup moved
              (repeats - 1))) ∧
        after.SameCold left := by
  by_cases nothing : min entries merging.entries = 0
  · refine ⟨merging, 0, 0, [], ?_⟩
    intro repeats _
    refine ⟨Scalar.zero, merging, .store_bind ?_, ⟨rfl, rfl, rfl, rfl, rfl, rfl⟩⟩
    simp only [nothing, true_or, if_true, BTree.readings_zero]
    exact .pure _ _ _
  · obtain ⟨parts, found, _, coldEnough, _⟩ :=
      Split.of_exists merging.carry (Nat.min_le_right entries merging.entries)
    let begun : Merging τ (BTree τ) := { merging with carry := parts.carry }
    obtain ⟨located, cost, cold, transfers, fewer, findsCold⟩ :=
      findCold_performs settled.cold lookup coldEnough device
    let kept := charged merging.ledger located cost
    refine ⟨begun.withMoved cold parts.cold kept merging.wrapped.ledger, parts.hot, parts.cold,
      transfers ++ merging.wrapped.inserting parts.cold, ?_⟩
    intro repeats some
    obtain ⟨time, hotLedger, foundHot⟩ := begun.findHot_performs lookup parts.hot repeats device
    obtain ⟨total, treeLedger, foundCold⟩ := findsCold
      { begun with wrapped := { merging.wrapped with ledger := hotLedger } } repeats time rfl some
    have unchanged := device.transferAll_reads
      (merging.wrapped.readings_reads lookup parts.hot repeats)
    let moved := begun.withMoved cold parts.cold kept treeLedger
    have same : moved.entries = merging.entries := by
      change cold.entries + (merging.wrapped.entries + parts.cold) =
        merging.cold.entries + merging.wrapped.entries
      omega
    have balanced : moved.expectedEntries = moved.entries := settled.expected.trans same.symm
    have again : ¬(min entries merging.entries = 0 ∨ repeats = 0) := by omega
    refine ⟨total, { moved with ledger := kept.record (.request lookup.request) total 1 },
      .store_bind ?_, (sameCold_record moved _ _).trans ⟨rfl, rfl, rfl, rfl, rfl, rfl⟩⟩
    simp only [if_neg again, branches_bind]
    apply Performs.idle_bind (split_performs found device)
    apply foundHot.bind
    -- The touch meets the device as the find has met it.
    rw [show begun.wrapped = merging.wrapped from rfl, unchanged]
    exact foundCold.bind_idle (close_performs balanced lookup.request total _)

/-- A find that is repeated leaves the cold side as a single one does, with the fraction that is
carried, the entries on both sides, and the counters of invalidation and loading. The device has the
same wear and the same dirty pages, and the disk has the same account of writes and overwrites: it
has made the same transfers and further reads. -/
theorem repeats_add_reads {merging : Merging τ (BTree τ)} {machine : Machine τ}
    (reachable : Index.Reachable ⟨1, merging, machine⟩) (lookup : Lookup) (entries : Nat)
    {repeats : Nat} (some : 0 < repeats) :
    ∃ (time moreTime : τ) (once often : Merging τ (BTree τ)) (afterOnce afterOften : Machine τ)
        (plain more : List Transfer),
      Index.call ⟨1, merging, machine⟩ (.find lookup entries 1) =
        .ok (.ok time, ⟨1, once, afterOnce⟩) ∧
      Index.call ⟨1, merging, machine⟩ (.find lookup entries repeats) =
        .ok (.ok moreTime, ⟨1, often, afterOften⟩) ∧
      often.SameCold once ∧
      afterOften.disk.ChangedAlike afterOnce.disk ∧
      Transfer.AddsReads plain more ∧
      afterOnce.disk = machine.disk.transferAll plain ∧
      afterOften.disk = machine.disk.transferAll more := by
  obtain ⟨left, hot, moved, transfers, finds⟩ :=
    find_performs reachable.settled lookup entries machine.disk.device
  obtain ⟨time, once, found, leftOnce⟩ := finds 1 Nat.zero_lt_one
  obtain ⟨moreTime, often, foundAgain, leftOften⟩ := finds repeats some
  obtain ⟨afterOnce, ran, transferred⟩ := found machine rfl
  obtain ⟨afterOften, ranAgain, transferredMore⟩ := foundAgain machine rfl
  have single : 1 ≤ repeats := some
  let grown := merging.wrapped.withEntries (merging.wrapped.entries + moved)
  have before := Transfer.AddsReads.of_reads
    (merging.wrapped.readings_sublist lookup hot single)
    (merging.wrapped.readings_reads lookup hot repeats)
  have behind := Transfer.AddsReads.of_reads
    (grown.readings_sublist lookup moved (Nat.sub_le_sub_right single 1))
    (grown.readings_reads lookup moved (repeats - 1))
  have adds := before.append ((Transfer.AddsReads.nothing transfers).append behind)
  refine ⟨time, moreTime, once, often, afterOnce, afterOften, _, _, Index.call_of_outcome ran,
    Index.call_of_outcome ranAgain, leftOften.trans leftOnce.symm, ?_, adds, transferred,
    transferredMore⟩
  rw [transferred, transferredMore]
  exact machine.disk.transferAll_alike adds

/-- Five cold entries on a drive, looked up once and four times. -/
theorem repeats_add_reads_of_cold :
    ∃ (tree : Index Rat) (merging : Merging Rat (BTree Rat)) (machine : Machine Rat),
      Index.tree (.create (.ssd ⟨⟨"SSD", 4, 12, 1, 2, 1, 1, 3, 9⟩, 0, 0⟩)) 1 1 8 = .ok tree ∧
      tree.eager 4 5 = .ok ⟨1, merging, machine⟩ ∧ merging.cold.entries = 5 ∧
      ∃ (time moreTime : Rat) (once often : Merging Rat (BTree Rat))
          (afterOnce afterOften : Machine Rat) (plain more : List Transfer),
        Index.call ⟨1, merging, machine⟩ (.find .point 3 1) =
          .ok (.ok time, ⟨1, once, afterOnce⟩) ∧
        Index.call ⟨1, merging, machine⟩ (.find .point 3 4) =
          .ok (.ok moreTime, ⟨1, often, afterOften⟩) ∧
        often.SameCold once ∧ afterOften.disk.ChangedAlike afterOnce.disk ∧
        Transfer.AddsReads plain more ∧ afterOnce.disk = machine.disk.transferAll plain ∧
        afterOften.disk = machine.disk.transferAll more := by
  obtain ⟨tree, planted⟩ : ∃ tree : Index Rat,
      Index.tree (.create (.ssd ⟨⟨"SSD", 4, 12, 1, 2, 1, 1, 3, 9⟩, 0, 0⟩)) 1 1 8 = .ok tree :=
    ⟨_, rfl⟩
  obtain ⟨merging, machine, wrapped, cold⟩ : ∃ (merging : Merging Rat (BTree Rat))
      (machine : Machine Rat), tree.eager 4 5 = .ok ⟨1, merging, machine⟩ ∧
        merging.cold.entries = 5 := by
    cases planted
    exact ⟨_, _, rfl, rfl⟩
  have reachable : Index.Reachable ⟨1, merging, machine⟩ := .wrap (.tree planted) (.eager wrapped)
  exact ⟨tree, merging, machine, planted, wrapped, cold,
    repeats_add_reads reachable .point 3 (by decide)⟩

end Merging

end MergeCost
