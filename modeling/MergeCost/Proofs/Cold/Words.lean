import MergeCost.Proofs.Cold.Composition
import MergeCost.Proofs.Cold.Tier
import MergeCost.Simulation.InWords

/-!
Touches in words. A touch in words is the touch, unless something that it counts does not fit into a
word. Whatever a tier has come to by requests in words, it would have come to without them.
-/

namespace MergeCost

open Sim

variable {τ : Type}

namespace Bin

/-- No group is larger than all items together. -/
theorem fillInWords_cases (capacity : Nat) (sizeOf : Nat → Nat) (current : Bin) (items : List Nat) :
    fillInWords capacity sizeOf current items = .ok (fillFrom capacity sizeOf current items) ∨
      fillInWords capacity sizeOf current items = .error .overflow ∧
        ¬Fits (current.size + (items.map sizeOf).sum) := by
  induction items generalizing current with
  | nil => exact .inl rfl
  | cons item rest ih =>
      rw [fillInWords, fillFrom, List.map_cons, List.sum_cons]
      by_cases size : Fits (current.size + sizeOf item)
      · rw [Word.add, Word.hold_bind size]
        by_cases exceeds : capacity < current.size + sizeOf item
        · rw [if_pos exceeds, if_pos exceeds]
          rcases ih ⟨[item], sizeOf item⟩ with packed | ⟨broken, large⟩
          · rw [packed]
            exact .inl rfl
          · rw [broken]
            exact .inr ⟨rfl, fun whole => large (Word.fits_of_le (Nat.le_add_left ..) whole)⟩
        · rw [if_neg exceeds, if_neg exceeds, ← Nat.add_assoc]
          exact ih ⟨item :: current.items, current.size + sizeOf item⟩
      · rw [Word.add, Word.hold_of_not_fits size]
        refine .inr ⟨rfl, fun whole => size (Word.fits_of_le ?_ whole)⟩
        omega

theorem packInWords_cases (capacity : Nat) (sizeOf : Nat → Nat) (items : List Nat) :
    packInWords capacity sizeOf items = .ok (pack capacity sizeOf items) ∨
      packInWords capacity sizeOf items = .error .overflow ∧ ¬Fits (items.map sizeOf).sum := by
  cases items with
  | nil => exact .inl rfl
  | cons item rest => exact fillInWords_cases capacity sizeOf ⟨[item], sizeOf item⟩ rest

end Bin

namespace PartitionStore

variable [Scalar τ] {store : PartitionStore} {located : List Located} {machine after : Machine τ}

theorem outcome_touchOneInWords {part : Located}
    (fits : Fits (part.entries * store.recordSize)) (cost : TouchCost τ) :
    outcome (touchOneInWords cost part) ⟨store, machine⟩ =
      outcome (inWords (touchOne cost part)) ⟨store, machine⟩ := by
  simp only [touchOneInWords, Word.mul, Word.hold_of_fits fits, outcome_bind, outcome_store,
    after_ok, outcome_orCrash_ok]

/-- In words partitions are touched one after the other as far as the disk goes with it, and as far
as the bytes that each is asked for fit. -/
theorem touchAllInWords_endsWithin (inside : store.InRange located)
    (start : machine.disk.Fits ∨ located ≠ []) {cost total : TouchCost τ} {left : PartitionStore}
    (ran : outcome (located.foldlM touchOne cost) ⟨store, machine⟩ =
      .ok (.ok total, ⟨left, after⟩)) :
    EndsWithin (after.disk.Fits ∧ ∀ part ∈ located, Fits (part.entries * store.recordSize))
      (outcome (located.foldlM touchOneInWords cost) ⟨store, machine⟩)
      (.ok (.ok total, ⟨left, after⟩)) := by
  induction located generalizing store cost machine with
  | nil =>
      cases ran
      have fits : after.disk.Fits := start.resolve_right (not_not_intro rfl)
      exact ⟨fun _ => rfl, fun large => absurd ⟨fits, List.forall_mem_nil _⟩ large⟩
  | cons part rest ih =>
      obtain ⟨next, between, stepped, _⟩ := touchOne_exists inside.head cost machine
      rw [List.foldlM_cons, outcome_bind, stepped, after_ok] at ran
      rw [List.foldlM_cons, outcome_bind]
      by_cases asked : Fits (part.entries * store.recordSize)
      case neg =>
        refine .of_breaks (fun room => asked (room.2 part List.mem_cons_self)) ?_
        simp only [touchOneInWords, Word.mul, Word.hold_of_not_fits asked, outcome_bind,
          outcome_store, after_ok, outcome_orCrash_error, after_fault]
      rw [outcome_touchOneInWords asked, outcome_inWords stepped]
      by_cases fits : between.disk.Fits
      case neg =>
        have grows : between.disk.Grows after.disk :=
          (Composed.foldlM touchOne_composed rest next).grows ran
        rw [if_neg fits]
        exact .of_breaks (fun room => fits (grows.fits room.1)) rfl
      rw [if_pos fits]
      refine (ih inside.drain (.inl fits) ran).congr ?_
      rw [List.forall_mem_cons, and_iff_right asked]
      rfl

theorem touchInWords_endsWithin (inside : store.InRange located) (something : located ≠ [])
    {cost : TouchCost τ} {left : PartitionStore}
    (ran : outcome (touch located) ⟨store, machine⟩ = .ok (.ok cost, ⟨left, after⟩)) :
    EndsWithin (after.disk.Fits ∧ ∀ part ∈ located, Fits (part.entries * store.recordSize))
      (outcome (touchInWords located) ⟨store, machine⟩) (.ok (.ok cost, ⟨left, after⟩)) := by
  have isEmpty : located.isEmpty = false := by simpa using something
  obtain ⟨total, between, started, _⟩ := touchAll_exists inside .empty machine
  simp only [touch, isEmpty, Bool.false_eq_true, if_false, outcome_bind, started, after_ok,
    outcome_emit, outcome_pure] at ran
  cases ran
  have touched := touchAllInWords_endsWithin inside (.inr something) started
  constructor
  · intro room
    simp only [touchInWords, isEmpty, Bool.false_eq_true, if_false, outcome_bind,
      touched.ends room, after_ok, outcome_emit, outcome_pure]
  · intro large
    simp only [touchInWords, isEmpty, Bool.false_eq_true, if_false, outcome_bind,
      touched.breaks large, after_fault]

end PartitionStore

namespace GroupedStore

variable {store : GroupedStore τ} {selected : List (EraseBlock × Nat)}

theorem Represented.valid_sum (represented : store.Represented) :
    (store.blocks.map EraseBlock.valid).sum = store.base.entries * store.base.recordSize := by
  have blocks : (store.blocks.map EraseBlock.valid).sum =
      (store.lists.flatten.map store.base.remainingBytes).sum := by
    rw [flatten_lists, List.flatMap_def, List.map_flatten, List.sum_flatten, List.map_map,
      List.map_map]
    congr 1
    apply List.map_congr_left
    intro block member
    exact (represented.accounted block member).valid_eq
  rw [blocks, ← List.sum_toFinset _ represented.layout.once, PartitionStore.entries_eq_sum,
    Finset.sum_mul]
  apply Finset.sum_subset
  · intro partition member
    exact Finset.mem_range.mpr (represented.layout.inside partition (List.mem_toFinset.mp member))
  · intro partition _ other
    have empty : store.base.remaining partition = 0 := by
      by_contra has
      exact other (List.mem_toFinset.mpr
        (represented.layout.listed partition (Nat.pos_of_ne_zero has)))
    rw [PartitionStore.remainingBytes, empty, Nat.zero_mul]

theorem Represented.live_le (represented : store.Represented) (selects : store.Selects selected) :
    ((selected.map Prod.fst).map EraseBlock.valid).sum ≤
      store.base.entries * store.base.recordSize := by
  rw [← represented.valid_sum, (selects.blocks_perm.map EraseBlock.valid).sum_eq, List.map_append,
    List.sum_append]
  exact Nat.le_add_left ..

/-- What is repacked is among the live bytes of the selected blocks. -/
theorem Represented.moved_le (represented : store.Represented) (selects : store.Selects selected) :
    ((store.moved (selected.map Prod.fst)).map store.base.remainingBytes).sum ≤
      store.base.entries * store.base.recordSize := by
  refine Nat.le_trans ?_ (represented.live_le selects)
  have within : (store.moved (selected.map Prod.fst)).Sublist
      ((selected.map Prod.fst).flatMap EraseBlock.partitions) := List.filter_sublist
  have valid : (((selected.map Prod.fst).flatMap EraseBlock.partitions).map
      store.base.remainingBytes).sum = ((selected.map Prod.fst).map EraseBlock.valid).sum := by
    rw [List.flatMap_def, List.map_flatten, List.sum_flatten, List.map_map, List.map_map]
    congr 1
    apply List.map_congr_left
    intro block chosen
    obtain ⟨pair, inside, rfl⟩ := List.mem_map.mp chosen
    exact (represented.accounted _ (List.mem_of_getElem? (selects.mem pair inside))).valid_eq.symm
  rw [← valid]
  exact (within.map store.base.remainingBytes).sum_le_sum fun _ _ => Nat.zero_le _

/-- Repacking in words fails only where the selected blocks hold more bytes than fit into a word. -/
theorem repackInWords_cases (represented : store.Represented) (selects : store.Selects selected) :
    store.repackInWords (selected.map Prod.fst) = .ok (store.repack (selected.map Prod.fst)) ∨
      store.repackInWords (selected.map Prod.fst) = .error .overflow ∧
        ¬Fits (store.base.entries * store.base.recordSize) := by
  refine (Bin.packInWords_cases ..).imp_right fun ⟨broken, large⟩ => ⟨broken, fun whole => large ?_⟩
  have sorted := (List.mergeSort_perm (store.moved (selected.map Prod.fst)) (· ≤ ·)).map
    store.base.remainingBytes
  refine Word.fits_of_le ?_ whole
  exact (Nat.le_of_eq sorted.sum_eq).trans (represented.moved_le selects)

variable [Scalar τ]

theorem planInWords_cases (store : GroupedStore τ) :
    store.planInWords = .ok store.plan? ∨
      store.planInWords = .error .overflow ∧
        store.repackInWords (store.selection.map Prod.fst) = .error .overflow := by
  rw [plan?_eq, planInWords]
  by_cases few : store.candidates.length < store.policy.triggerBlocks
  · rw [if_pos few, if_pos few]
    exact .inl rfl
  · rw [if_neg few, if_neg few]
    change (store.repackInWords (store.selection.map Prod.fst) >>= _) = _ ∨
      (store.repackInWords (store.selection.map Prod.fst) >>= _) = _ ∧ _
    rcases Bin.packInWords_cases .. with packed | ⟨broken, _⟩
    · rw [repackInWords, packed]
      exact .inl rfl
    · rw [repackInWords, broken]
      exact .inr ⟨rfl, rfl⟩

/-- Words hold what a store adds up to plan a pass, and the live bytes that the pass would
rewrite. -/
structure PlansInWords (store : GroupedStore τ) : Prop where
  planned : store.planInWords = .ok store.plan?
  rewritten : ∀ selected bins, store.plan? = some (selected, bins) →
    Fits (total ((selected.map Prod.fst).map EraseBlock.valid))

theorem not_plansInWords (broken : store.planInWords = .error .overflow) : ¬store.PlansInWords := by
  intro plans
  cases broken.symm.trans plans.planned

/-- Nothing that is added up for a pass exceeds the bytes of all entries. -/
theorem Represented.plansInWords (represented : store.Represented)
    (fits : Fits (store.base.entries * store.base.recordSize)) : store.PlansInWords where
  planned := by
    refine store.planInWords_cases.resolve_right fun ⟨_, broken⟩ => ?_
    rcases repackInWords_cases represented store.selects_selection with packed | ⟨_, large⟩
    · cases broken.symm.trans packed
    · exact large fits
  rewritten selected bins planned := by
    rw [total_eq_sum]
    exact Word.fits_of_le (represented.live_le (selects_of_plan? planned).1) fits

variable {located : List Located} {machine after : Machine τ}

theorem reorganizeInWords_endsWithin {bins : List Bin} {time : τ} {left : GroupedStore τ}
    (ran : outcome (reorganize selected bins) ⟨store, machine⟩ = .ok (.ok time, ⟨left, after⟩)) :
    EndsWithin (after.disk.Fits ∧ Fits (total ((selected.map Prod.fst).map EraseBlock.valid)))
      (outcome (reorganizeInWords selected bins) ⟨store, machine⟩)
      (.ok (.ok time, ⟨left, after⟩)) := by
  rw [reorganizeInWords, outcome_bind, Word.sum_eq]
  by_cases live : Fits (total ((selected.map Prod.fst).map EraseBlock.valid))
  · rw [Word.hold_of_fits live, outcome_orCrash_ok, after_ok, outcome_inWords ran]
    exact ⟨fun room => if_pos room.1, fun large => if_neg fun fits => large ⟨fits, live⟩⟩
  · rw [Word.hold_of_not_fits live]
    exact .of_breaks (fun room => live room.2) rfl

theorem finishInWords_of_idle (idle : store.plan? = none)
    (cost : TouchCost τ) (machine : Machine τ) :
    EndsWithin store.PlansInWords (outcome (finishInWords cost) ⟨store, machine⟩)
      (.ok (.ok cost, ⟨store, machine⟩)) := by
  simp only [finishInWords, outcome_bind, outcome_store, after_ok]
  rcases store.planInWords_cases with same | ⟨broken, _⟩
  · rw [same, idle]
    refine .of_ends ⟨same, ?_⟩ rfl
    intro selected bins planned
    rw [idle] at planned
    cases planned
  · rw [broken]
    exact .of_breaks (not_plansInWords broken) rfl

theorem finishInWords_of_due {bins : List Bin}
    (planned : store.plan? = some (selected, bins)) {time : τ} {left : GroupedStore τ}
    (ran : outcome (reorganize selected bins) ⟨store, machine⟩ = .ok (.ok time, ⟨left, after⟩))
    (cost : TouchCost τ) :
    EndsWithin (after.disk.Fits ∧ store.PlansInWords)
      (outcome (finishInWords cost) ⟨store, machine⟩)
      (.ok (.ok { cost with
        invalidationTime := cost.invalidationTime + time
        invalidations := 1 }, ⟨left, after⟩)) := by
  have pass := reorganizeInWords_endsWithin ran
  simp only [finishInWords, outcome_bind, outcome_store, after_ok]
  rcases store.planInWords_cases with same | ⟨broken, _⟩
  · rw [same, planned, outcome_orCrash_ok, after_ok]
    have plans : store.PlansInWords ↔
        Fits (total ((selected.map Prod.fst).map EraseBlock.valid)) := by
      constructor
      · exact fun plans => plans.rewritten selected bins planned
      · refine fun fits => ⟨same, fun _ _ other => ?_⟩
        cases planned.symm.trans other
        exact fits
    rw [plans]
    exact ⟨fun room => by rw [outcome_bind, pass.ends room]; rfl,
      fun large => by rw [outcome_bind, pass.breaks large]; rfl⟩
  · rw [broken]
    exact .of_breaks (fun room => not_plansInWords broken room.2) rfl

/-- A touch in words adds up what the disk has to count, and what the pass after it rewrites. -/
theorem touchInWords_endsWithin (represented : store.Represented)
    (inside : store.base.InRange located) (something : located ≠ []) {cost : TouchCost τ}
    {left : GroupedStore τ}
    (ran : outcome (touch located) ⟨store, machine⟩ = .ok (.ok cost, ⟨left, after⟩)) :
    EndsWithin (after.disk.Fits ∧ (store.settleAll located).PlansInWords)
      (outcome (touchInWords located) ⟨store, machine⟩) (.ok (.ok cost, ⟨left, after⟩)) := by
  have isEmpty : located.isEmpty = false := by simpa using something
  have settled := represented.settleAll located
  obtain ⟨total, started, _⟩ := touchAll_exists inside .empty machine
  simp only [touch, isEmpty, Bool.false_eq_true, if_false, outcome_bind, started, after_ok,
    outcome_store] at ran
  simp only [touchInWords, isEmpty, Bool.false_eq_true, if_false, outcome_bind,
    outcome_foldlM_inWords touchOne_composed started something]
  cases planned : (store.settleAll located).plan? with
  | none =>
      rw [planned] at ran
      cases ran
      by_cases fits : (store.loadAll located machine).disk.Fits
      · rw [if_pos fits]
        refine (finishInWords_of_idle planned _ _).congr ?_
        exact (and_iff_right fits).symm
      · rw [if_neg fits]
        exact .of_breaks (fun room => fits room.1) rfl
  | some plan =>
      obtain ⟨time, event, reorganized⟩ :=
        reorganize_exists settled planned (store.loadAll located machine)
      rw [planned] at ran
      simp only [outcome_bind, reorganized, after_ok, outcome_pure] at ran
      cases ran
      have grows := (reorganize_composed plan.1 plan.2).grows reorganized
      by_cases fits : (store.loadAll located machine).disk.Fits
      · rw [if_pos fits]
        exact finishInWords_of_due planned reorganized _
      · rw [if_neg fits]
        exact .of_breaks (fun room => fits (grows.fits room.1)) rfl

end GroupedStore

namespace ColdTier

variable [Scalar τ] {tier : ColdTier τ} {located : List Located} {machine after : Machine τ}
  {cost : TouchCost τ}

/-- Words hold what a touch that leaves such a disk counts: on the disk, and for partitions alone
the bytes that are asked for, for grouped ones what a pass adds up. A touch of nothing counts
nothing. -/
def Roomy (tier : ColdTier τ) (located : List Located) (disk : Disk τ) : Prop :=
  located ≠ [] → disk.Fits ∧
    match tier with
    | plain store => ∀ part ∈ located, Fits (part.entries * store.recordSize)
    | grouped store => (store.settleAll located).PlansInWords

/-- Grouped partitions that have less in them than a word counts leave the disk to be looked at. -/
theorem roomy_of_fits {store : GroupedStore τ} (represented : store.Represented) {disk : Disk τ}
    (counted : disk.Fits) (fits : Fits (store.base.entries * store.base.recordSize)) :
    (grouped store).Roomy located disk := by
  refine fun _ => ⟨counted, (represented.settleAll located).plansInWords ?_⟩
  rw [GroupedStore.base_settleAll, PartitionStore.recordSize_drainAll]
  exact Word.fits_of_le (Nat.mul_le_mul_right _ (store.base.entries_drainAll_le located)) fits

/-- A touch in words comes to this, and breaks off just if there is no room for what it counts.
There is room where words hold the counts of the disk, the bytes that are there, and those that are
asked for. -/
structure TouchesInWords (tier : ColdTier τ) (located : List Located) (machine : Machine τ)
    (cost : TouchCost τ) (after : World τ (ColdTier τ)) : Prop where
  limits : EndsWithin (tier.Roomy located after.machine.disk)
    (outcome (touchInWords located) ⟨tier, machine⟩) (.ok (.ok cost, after))
  roomy : after.machine.disk.Fits → Fits (tier.base.entries * tier.base.recordSize) →
    (∀ part ∈ located, Fits (part.entries * tier.base.recordSize)) →
    tier.Roomy located after.machine.disk

theorem touchInWords_endsWithin (valid : tier.Valid) (inside : tier.base.InRange located)
    {after : World τ (ColdTier τ)}
    (ran : outcome (touch located) ⟨tier, machine⟩ = .ok (.ok cost, after)) :
    EndsWithin (tier.Roomy located after.machine.disk)
      (outcome (touchInWords located) ⟨tier, machine⟩) (.ok (.ok cost, after)) := by
  by_cases something : located ≠ []
  case neg =>
    obtain rfl := not_not.mp something
    refine .of_ends (fun some => absurd rfl some) ?_
    rw [← ran]
    cases tier <;> rfl
  rw [← ran]
  cases tier with
  | plain store =>
      have inside : store.InRange located := inside
      obtain ⟨_, _, ended, _⟩ := PartitionStore.touch_exists inside machine
      rw [outcome_touch_plain ended] at ran
      cases ran
      have touched := PartitionStore.touchInWords_endsWithin inside something ended
      rw [← ended] at touched
      let world : World τ (ColdTier τ) := ⟨.plain store, machine⟩
      exact (touched.zoom (fun _ => store) (fun store _ => plain store) world).congr
        (imp_iff_right something).symm
  | grouped store =>
      obtain ⟨_, _, _, ended, _⟩ := GroupedStore.touch_exists valid inside machine
      rw [outcome_touch_grouped ended] at ran
      cases ran
      have touched := GroupedStore.touchInWords_endsWithin valid inside something ended
      rw [← ended] at touched
      let world : World τ (ColdTier τ) := ⟨.grouped store, machine⟩
      exact (touched.zoom (fun _ => store) (fun store _ => grouped store) world).congr
        (imp_iff_right something).symm

theorem touchesInWords_of_touch (valid : tier.Valid) (inside : tier.base.InRange located)
    {after : World τ (ColdTier τ)}
    (ran : outcome (touch located) ⟨tier, machine⟩ = .ok (.ok cost, after)) :
    tier.TouchesInWords located machine cost after where
  limits := touchInWords_endsWithin valid inside ran
  roomy counted held asked := by
    cases tier with
    | plain store => exact fun _ => ⟨counted, asked⟩
    | grouped store => exact roomy_of_fits valid counted held

/-- What has been located is there, so that a touch of it asks for no more bytes than that. -/
theorem touchInWords_of_fits (valid : tier.Valid) (allots : tier.base.Allots located)
    (there : Fits (tier.base.entries * tier.base.recordSize)) {after : World τ (ColdTier τ)}
    (ran : outcome (touch located) ⟨tier, machine⟩ = .ok (.ok cost, after))
    (fits : after.machine.disk.Fits) :
    outcome (touchInWords located) ⟨tier, machine⟩ = .ok (.ok cost, after) := by
  have touches := touchesInWords_of_touch valid allots.inRange ran
  refine touches.limits.ends (touches.roomy fits there fun part member => ?_)
  have asked : part.entries ≤ tier.base.entries :=
    (List.le_sum_of_mem (List.mem_map_of_mem member)).trans
      ((Nat.le_add_left ..).trans_eq allots.entries_drainAll)
  exact Word.fits_of_le (Nat.mul_le_mul_right _ asked) there

theorem touchInWords_exists (valid : tier.Valid) (inside : tier.base.InRange located)
    (machine : Machine τ) : ∃ cost after, tier.TouchesInWords located machine cost after := by
  obtain ⟨cost, left, after, ran, _⟩ := touch_exists valid inside machine
  exact ⟨cost, _, touchesInWords_of_touch valid inside ran⟩

/-- A touch in words that has ended well is the touch. -/
theorem touch_of_touchInWords (valid : tier.Valid) (inside : tier.base.InRange located)
    {after : World τ (ColdTier τ)}
    (ran : outcome (touchInWords located) ⟨tier, machine⟩ = .ok (.ok cost, after)) :
    outcome (touch located) ⟨tier, machine⟩ = .ok (.ok cost, after) := by
  obtain ⟨_, _, _, ended, _⟩ := touch_exists valid inside machine
  exact ended.trans ((touchInWords_endsWithin valid inside ended).eq_of_ok ran)

end ColdTier

end MergeCost
