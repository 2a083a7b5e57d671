import MergeCost.Proofs.Cold.Ranking
import MergeCost.Proofs.Cold.Reclaim

/-!
What a pass of reorganization does. It takes the first blocks of the ranking and puts what lives in
them into as many new blocks as there are groups; the other blocks, the partitions and the cursors
stay as they are. On the disk it is one read and one overwrite of the live bytes.
-/

namespace MergeCost

open Sim

namespace GroupedStore

variable {τ : Type} {store : GroupedStore τ} {selected : List (EraseBlock × Nat)}

/-- A pass has replaced the selected blocks of a store by one block for each group. -/
structure Reorganizes (store : GroupedStore τ) (selected : List (EraseBlock × Nat))
    (groups : List Bin) (left : GroupedStore τ) : Prop where
  passes_eq : left.passes = store.passes + 1
  base_eq : left.base = store.base
  policy_eq : left.policy = store.policy
  blocks_before : store.blocks.Perm
    (store.keptBlocks (selected.map Prod.snd) ++ selected.map Prod.fst)
  blocks_after : left.blocks.Perm
    (store.keptBlocks (selected.map Prod.snd) ++ store.freshBlocks groups)
  fresh : ∀ block ∈ store.freshBlocks groups, block.stale = 0 ∧
    block.valid = (block.partitions.map store.base.remainingBytes).sum
  holder_iff : ∀ partition position, left.holder[partition]? = some (some position) ↔
    ∃ block : EraseBlock, left.blocks[position]? = some block ∧ partition ∈ block.partitions
  moved_once : ∀ taken ∈ selected.map Prod.fst, ∀ partition ∈ taken.partitions,
    0 < store.base.remaining partition → ∃! position : Nat, ∃ block ∈ store.freshBlocks groups,
      left.blocks[position]? = some block ∧ partition ∈ block.partitions
  dropped : ∀ taken ∈ selected.map Prod.fst, ∀ partition ∈ taken.partitions,
    store.base.remaining partition = 0 →
      left.holder[partition]? = some none ∧ ∀ block ∈ left.blocks, partition ∉ block.partitions
  stale_eq : left.staleEntries + store.staleEntriesOf (selected.map Prod.fst) = store.staleEntries

theorem Represented.unheld_iff (represented : store.Represented) {partition : Nat}
    (inside : partition < store.base.partitions.size) :
    store.holder[partition]? = some none ↔
      ∀ block ∈ store.blocks, partition ∉ block.partitions := by
  constructor
  · intro none
    exact (represented.unheld (by simp [none])).1
  · intro elsewhere
    have known : partition < store.holder.size := by rwa [represented.holder_eq, size_holders]
    cases held : store.holder[partition] with
    | none => exact (Array.getElem?_eq_getElem known).trans (congrArg some held)
    | some position =>
        have found := (Array.getElem?_eq_getElem known).trans (congrArg some held)
        obtain ⟨block, member, has⟩ := (represented.holder_iff partition position).mp found
        exact absurd has (elsewhere block (List.mem_of_getElem? member))

/-- What lives in the blocks that a pass takes comes into the new ones. -/
theorem exists_fresh {taken : EraseBlock} (chosen : taken ∈ selected.map Prod.fst)
    {partition : Nat} (inside : partition ∈ taken.partitions)
    (some : 0 < store.base.remaining partition) :
    ∃ block ∈ store.freshBlocks (store.repack (selected.map Prod.fst)),
      partition ∈ block.partitions := by
  apply List.mem_flatMap.mp
  rw [(store.flatMap_freshBlocks _).mem_iff, mem_moved]
  exact ⟨List.mem_flatMap.mpr ⟨taken, chosen, inside⟩, some⟩

theorem Represented.reorganizes (represented : store.Represented)
    (selects : store.Selects selected) :
    store.Reorganizes selected (store.repack (selected.map Prod.fst))
      (store.reorganized selected (store.repack (selected.map Prod.fst))) := by
  have after := represented.reorganized selects
  have perm := store.replaced_perm (selected.map Prod.snd) (store.repack (selected.map Prod.fst))
  constructor
  case passes_eq | base_eq | policy_eq => rfl
  case blocks_before => exact selects.blocks_perm
  case blocks_after => exact perm
  case fresh =>
    intro block member
    obtain ⟨accounted, clean⟩ := represented.accounted_fresh member
    exact ⟨clean, accounted.valid_eq⟩
  case holder_iff => exact after.holder_iff
  case moved_once =>
    intro taken chosen partition inside some
    obtain ⟨block, isFresh, has⟩ := exists_fresh chosen inside some
    have member := perm.mem_iff.mpr (List.mem_append_right _ isFresh)
    obtain ⟨position, found⟩ := List.mem_iff_getElem?.mp member
    refine ⟨position, ⟨block, isFresh, found, has⟩, ?_⟩
    rintro other ⟨holder, _, held, holds⟩
    exact (after.held_once some).unique ⟨holder, held, holds⟩ ⟨block, found, has⟩
  case dropped =>
    intro taken chosen partition inside empty
    have gone := represented.dropped selects chosen inside empty
    have listed : partition ∈ store.lists.flatten := by
      rw [flatten_lists, selects.mem_blocks]
      exact .inr (List.mem_flatMap.mpr ⟨taken, chosen, inside⟩)
    exact ⟨(after.unheld_iff (represented.layout.inside partition listed)).mpr gone, gone⟩
  case stale_eq => exact Nat.sub_add_cancel (represented.reclaimed_le selects)

variable [Scalar τ]

/-- Enough blocks are of low usage, and the groups of those that a pass would take are fewer. -/
def Due (store : GroupedStore τ) : Prop :=
  store.policy.triggerBlocks ≤ store.candidates.length ∧
    (store.repack (store.selection.map Prod.fst)).length < store.selection.length

theorem plan?_of_due (due : store.Due) :
    store.plan? = some (store.selection, store.repack (store.selection.map Prod.fst)) := by
  rw [plan?_eq, if_neg (Nat.not_lt.mpr due.1), if_pos due.2]

theorem plan?_of_not_due (idle : ¬ store.Due) : store.plan? = none := by
  rw [plan?_eq]
  split
  · rfl
  · rename_i enough
    exact if_neg fun fewer => idle ⟨Nat.not_lt.mp enough, fewer⟩

/-- What a touch does to the machine: it loads the partitions, and then a pass rewrites the live
bytes of the blocks that it takes. -/
theorem touch_rewrites (represented : store.Represented) {located : List Located}
    (inside : store.base.InRange located) (something : located ≠ []) (machine : Machine τ) :
    ∃ cost after, outcome (touch located) ⟨store, machine⟩ =
        .ok (.ok cost, ⟨(store.settleAll located).passed, after⟩) ∧
      ((store.settleAll located).plan? = none → after = store.loadAll located machine) ∧
      ∀ selected bins, (store.settleAll located).plan? = some (selected, bins) →
        ∃ event, after = ((store.loadAll located machine).rewrite
          (total ((selected.map Prod.fst).map EraseBlock.valid))).emit event := by
  have isEmpty : located.isEmpty = false := by simpa using something
  obtain ⟨cost, ran, _⟩ := touchAll_exists inside .empty machine
  simp only [touch, isEmpty, Bool.false_eq_true, if_false, outcome_bind, ran, after_ok,
    outcome_store]
  cases planned : (store.settleAll located).plan? with
  | none =>
      have same : (store.settleAll located).passed = store.settleAll located := by
        simp only [passed, planned]
      rw [same]
      refine ⟨_, _, rfl, fun _ => rfl, ?_⟩
      intro selected bins other
      cases other
  | some plan =>
      obtain ⟨time, event, reorganized⟩ := reorganize_exists (represented.settleAll located) planned
        (store.loadAll located machine)
      simp only [outcome_bind, reorganized, after_ok, outcome_pure]
      refine ⟨_, _, rfl, fun other => ?_, ?_⟩
      · cases other
      · intro selected bins same
        cases same
        exact ⟨event, rfl⟩

variable [Scalar.Ordered τ]

/-- Entries leave, and then a touch makes one pass if it is due, and none otherwise. A touch of
nothing makes none in any case. It breaks off only if it counts more than fits into words. -/
theorem touch_reorganizes (reachable : (ColdTier.grouped store).ReachableInWords)
    {located : List Located} (inside : store.base.InRange located) (machine : Machine τ) :
    let settled := store.settleAll located
    let loaded := store.loadAll located machine
    let selected := settled.selection
    let liveBytes := total ((selected.map Prod.fst).map EraseBlock.valid)
    let due := located ≠ [] ∧ settled.Due
    (∀ ranking, settled.Ranks ranking ↔ ranking = settled.candidates) ∧
    ∃ cost left after,
      (ColdTier.grouped store).TouchesInWords located machine cost ⟨.grouped left, after⟩ ∧
      (left.passes = store.passes + 1 ↔ due) ∧
      (¬ due → left = settled ∧ left.passes = store.passes ∧ after = loaded) ∧
      (due → settled.Reorganizes selected (settled.repack (selected.map Prod.fst)) left ∧
        (∃ event, after = (loaded.rewrite liveBytes).emit event) ∧
        (liveBytes = 0 → after.disk = loaded.disk)) := by
  intro settled loaded selected liveBytes due
  refine ⟨settled.ranks_iff, ?_⟩
  by_cases something : located ≠ []
  case neg =>
    obtain rfl := not_not.mp something
    have touches : (ColdTier.grouped store).TouchesInWords [] machine .empty
        ⟨.grouped store, machine⟩ :=
      ColdTier.touchesInWords_of_touch reachable.valid inside rfl
    refine ⟨.empty, store, machine, touches, iff_of_false (by omega) ?_,
      fun _ => ⟨rfl, rfl, rfl⟩, ?_⟩
    · exact fun now => something now.1
    · exact fun now => absurd now.1 something
  case pos =>
    have represented : settled.Represented := Represented.settleAll reachable.valid located
    have passes : settled.passes = store.passes := (store.settleAll_advances located).passes_eq
    obtain ⟨cost, after, ran, idle, pass⟩ :=
      touch_rewrites reachable.valid inside something machine
    have touches : (ColdTier.grouped store).TouchesInWords located machine cost
        ⟨.grouped settled.passed, after⟩ :=
      ColdTier.touchesInWords_of_touch reachable.valid inside (ColdTier.outcome_touch_grouped ran)
    refine ⟨cost, settled.passed, after, touches, ?_⟩
    by_cases isDue : settled.Due
    · have now : due := ⟨something, isDue⟩
      have plan := plan?_of_due isDue
      have reorganizes := represented.reorganizes settled.selects_selection
      have left : settled.passed = settled.reorganized selected
          (settled.repack (selected.map Prod.fst)) := by rw [passed, plan]
      obtain ⟨event, rewritten⟩ := pass _ _ plan
      rw [left]
      refine ⟨iff_of_true (reorganizes.passes_eq.trans (congrArg (· + 1) passes)) now,
        fun other => absurd now other, fun _ => ⟨reorganizes, ⟨event, rewritten⟩, ?_⟩⟩
      intro none
      have still : after = (loaded.rewrite liveBytes).emit event := rewritten
      rw [still, none]
      rfl
    · have notNow : ¬ due := fun now => isDue now.2
      have plan := plan?_of_not_due isDue
      have left : settled.passed = settled := by rw [passed, plan]
      rw [left]
      exact ⟨iff_of_false (by omega) notNow, fun _ => ⟨rfl, passes, idle plan⟩,
        fun other => absurd other notNow⟩

/-- A second pass joins two more of five partitions. -/
theorem touch_reorganizes_paired :
    (ColdTier.grouped paired).ReachableInWords ∧ ∃ machine cost left after,
      outcome (ColdTier.touchInWords [⟨1, 2⟩, ⟨3, 4⟩]) ⟨.grouped paired, machine⟩ =
        .ok (.ok cost, ⟨.grouped left, after⟩) ∧
      left.passes = 2 ∧ left.staleEntries = 0 ∧
      left.blocks.Perm [⟨6, 6, 0, [0, 2]⟩, ⟨6, 6, 0, [4]⟩, ⟨6, 6, 0, [1, 3]⟩] ∧
      ∃ event, after = ((paired.loadAll [⟨1, 2⟩, ⟨3, 4⟩] machine).rewrite 6).emit event := by
  let machine : Machine Rat := .create (.create (.pcm ⟨⟨"PCM", 64, 1, 2⟩, 0⟩))
  let settled : GroupedStore Rat := { paired with
    base := { paired.base with partitions := #[⟨6, 3⟩, ⟨6, 4⟩, ⟨6, 3⟩, ⟨6, 2⟩, ⟨6, 6⟩] }
    blocks := [⟨6, 6, 0, [0, 2]⟩, ⟨6, 4, 2, [1]⟩, ⟨6, 2, 4, [3]⟩, ⟨6, 6, 0, [4]⟩]
    staleEntries := 6 }
  have marked : paired.settleAll [⟨1, 2⟩, ⟨3, 4⟩] = settled := by cbv
  have selection : settled.selection = [(⟨6, 2, 4, [3]⟩, 2), (⟨6, 4, 2, [1]⟩, 1)] := by cbv
  have inside : paired.base.InRange [⟨1, 2⟩, ⟨3, 4⟩] := by
    simp [PartitionStore.InRange, paired]
  obtain ⟨done, ended⟩ : ∃ done,
      outcome (ColdTier.touchInWords [⟨1, 2⟩, ⟨3, 4⟩]) ⟨.grouped paired, machine⟩ = .ok done := by
    refine ⟨?_, ?ended⟩
    case ended => cbv; rfl
  obtain ⟨-, cost, left, after, touches, -, -, pass⟩ :=
    touch_reorganizes paired_reachable inside machine
  have ran := ended.trans (touches.limits.eq_of_ok ended).symm
  rw [marked, selection] at pass
  obtain ⟨reorganizes, ⟨event, rewritten⟩, -⟩ := pass ⟨by simp, by cbv, by cbv⟩
  have replaced : settled.keptBlocks [2, 1] ++
      settled.freshBlocks (settled.repack [⟨6, 2, 4, [3]⟩, ⟨6, 4, 2, [1]⟩]) =
        [⟨6, 6, 0, [0, 2]⟩, ⟨6, 6, 0, [4]⟩, ⟨6, 6, 0, [1, 3]⟩] := by cbv
  have reclaimed : settled.staleEntriesOf [⟨6, 2, 4, [3]⟩, ⟨6, 4, 2, [1]⟩] = 6 := by cbv
  refine ⟨paired_reachable, machine, cost, left, after, ran, reorganizes.passes_eq, ?_,
    replaced ▸ reorganizes.blocks_after, event, rewritten⟩
  exact Nat.add_right_cancel ((congrArg _ reclaimed).symm.trans reorganizes.stale_eq)

/-- A pass may be due and is not made for a touch of nothing. -/
theorem idle_at_touch_of_nothing :
    (ColdTier.grouped halfReclaimed).ReachableInWords ∧ halfReclaimed.base.InRange [] ∧
      (halfReclaimed.settleAll []).Due ∧ ∀ machine,
        outcome (ColdTier.touchInWords []) ⟨.grouped halfReclaimed, machine⟩ =
          .ok (.ok .empty, ⟨.grouped halfReclaimed, machine⟩) :=
  ⟨halfReclaimed_reachable, List.forall_mem_nil _, ⟨by cbv, by cbv⟩, fun _ => rfl⟩

end GroupedStore

end MergeCost
