import MergeCost.Proofs.Cold.Passes
import MergeCost.Proofs.Cold.Reachable

/-!
Blocks that a pass takes back. A pass is due once enough blocks are of low usage, provided that it
fills fewer blocks than it takes. With an empty block among those that it takes this is so as long
as the live partitions of the others are not mixed up with each other; where they are, filling
blocks in the order of partitions can cost what the empty block would free.
-/

namespace MergeCost

open Sim

namespace GroupedStore

variable {τ : Type} {store : GroupedStore τ}

/-- The partitions of a block that hold entries. -/
def live (store : GroupedStore τ) (block : EraseBlock) : List Nat :=
  block.partitions.filter (0 < store.base.remaining ·)

theorem moved_eq (store : GroupedStore τ) (blocks : List EraseBlock) :
    store.moved blocks = blocks.flatMap store.live :=
  List.filter_flatMap

/-- Of two blocks, the live partitions of one come before all of the other. -/
def Apart (store : GroupedStore τ) (left right : EraseBlock) : Prop :=
  (∀ first ∈ store.live left, ∀ second ∈ store.live right, first < second) ∨
    ∀ first ∈ store.live left, ∀ second ∈ store.live right, second < first

theorem Apart.symm {left right : EraseBlock} (apart : store.Apart left right) :
    store.Apart right left := by
  rcases apart with before | behind
  · exact .inr fun first isFirst second isSecond => before second isSecond first isFirst
  · exact .inl fun first isFirst second isSecond => behind second isSecond first isFirst

/-! Blocks that are apart are packed one after the other -/

def firstLive (store : GroupedStore τ) (block : EraseBlock) : Nat := (store.live block).headD 0

theorem Apart.lt_of_firstLive_le {left right : EraseBlock} (apart : store.Apart left right)
    (ordered : store.firstLive left ≤ store.firstLive right) :
    ∀ first ∈ store.live left, ∀ second ∈ store.live right, first < second := by
  rcases apart with before | behind
  · exact before
  · unfold firstLive at ordered
    cases leftLive : store.live left with
    | nil => simp
    | cons leftHead leftRest =>
        cases rightLive : store.live right with
        | nil => simp
        | cons rightHead rightRest =>
            have against := behind leftHead (by simp [leftLive]) rightHead (by simp [rightLive])
            rw [leftLive, rightLive] at ordered
            exact absurd ordered (Nat.not_le.mpr against)

/-- The live partitions of blocks that are apart fall into one group for each block. -/
theorem exists_groups {blocks : List EraseBlock} (apart : blocks.Pairwise store.Apart) :
    ∃ groups : List (List Nat), groups.length = blocks.length ∧
      (store.moved blocks).mergeSort (· ≤ ·) = groups.flatten ∧
      ∀ group ∈ groups, ∃ block ∈ blocks, group.Perm (store.live block) := by
  let ordered := blocks.mergeSort fun left right => store.firstLive left ≤ store.firstLive right
  have same : ordered.Perm blocks := List.mergeSort_perm _ _
  have sorted : ordered.Pairwise fun left right =>
      store.firstLive left ≤ store.firstLive right := by
    refine (List.pairwise_mergeSort ?_ ?_ blocks).imp fun before => of_decide_eq_true before
    · intro first second third left right
      simp only [decide_eq_true_eq] at left right ⊢
      omega
    · intro left right
      simp only [Bool.or_eq_true, decide_eq_true_eq]
      omega
  have stillApart : ordered.Pairwise store.Apart :=
    apart.perm same.symm fun {_ _} => Apart.symm
  let group (block : EraseBlock) : List Nat := (store.live block).mergeSort (· ≤ ·)
  have inside {partition : Nat} {block : EraseBlock} (member : partition ∈ group block) :
      partition ∈ store.live block := List.mem_mergeSort.mp member
  have increasing : (ordered.map group).flatten.Pairwise (· ≤ ·) := by
    rw [List.pairwise_flatten, List.pairwise_map]
    constructor
    · intro items member
      obtain ⟨block, _, rfl⟩ := List.mem_map.mp member
      exact (List.pairwise_mergeSort' (· ≤ ·) (store.live block))
    · apply (sorted.and stillApart).imp
      intro left right ⟨before, distinct⟩ first isFirst second isSecond
      exact (distinct.lt_of_firstLive_le before first (inside isFirst) second
        (inside isSecond)).le
  have partitions : ((ordered.map group).flatten).Perm (store.moved blocks) := by
    rw [moved_eq, ← List.flatMap_def]
    exact (List.Perm.flatMap_left ordered fun block _ => List.mergeSort_perm _ _).trans
      (same.flatMap_right store.live)
  refine ⟨ordered.map group, ?_, ?_, ?_⟩
  · rw [List.length_map]
    exact same.length_eq
  · exact ((List.mergeSort_perm _ _).trans partitions.symm).eq_of_pairwise'
      (List.pairwise_mergeSort' (· ≤ ·) _) increasing
  · intro items member
    obtain ⟨block, chosen, rfl⟩ := List.mem_map.mp member
    exact ⟨block, same.mem_iff.mp chosen, List.mergeSort_perm _ _⟩

theorem Represented.live_bytes_le (represented : store.Represented) {block : EraseBlock}
    (member : block ∈ store.blocks) :
    ((store.live block).map store.base.remainingBytes).sum ≤ store.blockCapacity := by
  have accounted := represented.accounted block member
  have part : ((store.live block).map store.base.remainingBytes).sum ≤
      (block.partitions.map store.base.remainingBytes).sum :=
    (List.filter_sublist.map _).sum_le_sum fun _ _ => Nat.zero_le _
  have valid := accounted.valid_eq
  have within := accounted.within
  omega

theorem Represented.repack_length_le (represented : store.Represented) {blocks : List EraseBlock}
    (known : ∀ block ∈ blocks, block ∈ store.blocks) (apart : blocks.Pairwise store.Apart) :
    (store.repack blocks).length ≤ blocks.length := by
  obtain ⟨groups, count, sorted, each⟩ := exists_groups apart
  have fits : ∀ group ∈ groups,
      (group.map store.base.remainingBytes).sum ≤ store.blockCapacity := by
    intro group member
    obtain ⟨block, chosen, same⟩ := each group member
    rw [(same.map _).sum_eq]
    exact represented.live_bytes_le (known block chosen)
  have packed := Bin.pack_length_le fits
  rw [← sorted, count] at packed
  exact packed

/-- An empty block has no part in what is repacked. -/
theorem repack_filter (store : GroupedStore τ) (blocks : List EraseBlock) :
    store.repack (blocks.filter fun block => !(store.live block).isEmpty) =
      store.repack blocks := by
  have same : store.moved (blocks.filter fun block => !(store.live block).isEmpty) =
      store.moved blocks := by
    rw [moved_eq, moved_eq]
    induction blocks with
    | nil => rfl
    | cons block rest ih =>
        cases has : store.live block with
        | nil => simpa [List.filter_cons, has] using ih
        | cons first others => simpa [List.filter_cons, has] using ih
  exact congrArg (fun moved : List Nat =>
    Bin.pack store.blockCapacity store.base.remainingBytes (moved.mergeSort (· ≤ ·))) same

theorem live_eq_nil {block : EraseBlock}
    (empty : ∀ partition ∈ block.partitions, store.base.remaining partition = 0) :
    store.live block = [] := by
  apply List.filter_eq_nil_iff.mpr
  intro partition member
  simp [empty partition member]

/-- Blocks that are apart, an empty one among them, are repacked into fewer. -/
theorem Represented.repack_length_lt (represented : store.Represented) {blocks : List EraseBlock}
    (known : ∀ block ∈ blocks, block ∈ store.blocks) (apart : blocks.Pairwise store.Apart)
    {drained : EraseBlock} (member : drained ∈ blocks)
    (empty : ∀ partition ∈ drained.partitions, store.base.remaining partition = 0) :
    (store.repack blocks).length < blocks.length := by
  have fewer : (blocks.filter fun block => !(store.live block).isEmpty).length < blocks.length := by
    apply List.length_filter_lt_length_iff_exists.mpr
    exact ⟨drained, member, by simp [live_eq_nil empty]⟩
  have filled : ∀ block ∈ blocks.filter fun block => !(store.live block).isEmpty,
      block ∈ store.blocks := fun block inside => known block (List.mem_of_mem_filter inside)
  have packed := represented.repack_length_le filled (apart.filter _)
  rw [repack_filter] at packed
  omega

/-! Blocks are apart until the first pass -/

/-- Lists of partitions of which each comes before the next as a whole. -/
def Separate (lists : List (List Nat)) : Prop :=
  lists.Pairwise fun left right => ∀ first ∈ left, ∀ second ∈ right, first < second

theorem separate_group (base : PartitionStore) (perBlock capacity : Nat) :
    Separate ((group base perBlock capacity).map EraseBlock.partitions) := by
  rw [lists_group, Separate, List.pairwise_map]
  apply List.pairwise_lt_range.imp
  intro left right before first isFirst second isSecond
  have ends : (left + 1) * perBlock ≤ right * perBlock := Nat.mul_le_mul_right _ before
  rw [Nat.succ_mul] at ends
  rw [List.mem_range'_1] at isFirst isSecond
  omega

@[simp] theorem lists_settle (store : GroupedStore τ) (part : Located) :
    (store.settle part).lists = store.lists := by
  simp only [settle, markStale, lists]
  split
  · apply List.ext_getElem?
    intro position
    rw [List.getElem?_map, List.getElem?_map, List.getElem?_modify]
    cases store.blocks[position]? with
    | none => rfl
    | some block =>
        rw [Option.map_eq_map, Option.map_some, Option.map_some]
        split <;> rfl
  · rfl

@[simp] theorem lists_settleAll (store : GroupedStore τ) (located : List Located) :
    (store.settleAll located).lists = store.lists := by
  induction located generalizing store with
  | nil => rfl
  | cons part rest ih => exact (ih (store.settle part)).trans (store.lists_settle part)

@[simp] theorem policy_settleAll (store : GroupedStore τ) (located : List Located) :
    (store.settleAll located).policy = store.policy := by
  induction located generalizing store with
  | nil => rfl
  | cons part rest ih => exact ih (store.settle part)

theorem Separate.apart {left right : EraseBlock} {first second : Nat}
    (separate : Separate store.lists) (different : first ≠ second)
    (isLeft : store.blocks[first]? = some left) (isRight : store.blocks[second]? = some right) :
    store.Apart left right := by
  have before {i j : Nat} {early late : EraseBlock} (less : i < j)
      (isEarly : store.blocks[i]? = some early) (isLate : store.blocks[j]? = some late) :
      ∀ one ∈ store.live early, ∀ other ∈ store.live late, one < other := by
    obtain ⟨insideEarly, rfl⟩ := List.getElem?_eq_some_iff.mp isEarly
    obtain ⟨insideLate, rfl⟩ := List.getElem?_eq_some_iff.mp isLate
    have ordered := List.pairwise_iff_getElem.mp (List.pairwise_map.mp separate) i j insideEarly
      insideLate less
    intro one isOne other isOther
    exact ordered one (List.mem_of_mem_filter isOne) other (List.mem_of_mem_filter isOther)
  rcases Nat.lt_or_gt_of_ne different with less | more
  · exact .inl (before less isLeft isRight)
  · exact .inr fun one isOne other isOther => before more isRight isLeft other isOther one isOne

theorem Selects.apart {selected : List (EraseBlock × Nat)} (selects : store.Selects selected)
    (separate : Separate store.lists) : (selected.map Prod.fst).Pairwise store.Apart := by
  rw [List.pairwise_map]
  have distinct := List.pairwise_map.mp selects.distinct
  apply distinct.imp_of_mem
  intro left right isLeft isRight different
  exact separate.apart different (selects.mem left isLeft) (selects.mem right isRight)

variable [Scalar τ]

theorem create_separate {base : PartitionStore} {blockSize : Nat}
    {policy : ReorganizationPolicy τ} (built : create base blockSize policy = .ok store) :
    Separate store.lists := by
  obtain ⟨_, _, grouped⟩ := Except.exists_of_bind built
  cases grouped
  exact separate_group base _ _

/-- A touch without a pass leaves the partitions in their blocks. -/
theorem lists_touched {located : List Located}
    (idle : (store.touched located).passes = store.passes) :
    (store.touched located).lists = store.lists := by
  unfold touched at idle ⊢
  split
  · rfl
  · rename_i some
    rw [if_neg some] at idle
    have marked := (store.settleAll_advances located).passes_eq
    have passed := (store.settleAll located).passed_advances.passes_eq
    cases planned : (store.settleAll located).plan? with
    | none =>
        rw [GroupedStore.passed, planned]
        exact store.lists_settleAll located
    | some plan =>
        have pass : (store.settleAll located).due = 1 := by simp [due, planned]
        omega

end GroupedStore

namespace ColdTier

variable [Scalar τ]

/-- Until the first pass each block has neighbouring partitions. -/
theorem Reachable.separate {tier : ColdTier τ} (reachable : tier.Reachable) :
    ∀ store ∈ tier.grouped?, store.passes = 0 → GroupedStore.Separate store.lists := by
  induction reachable with
  | create _ => exact nofun
  | group _ created =>
      rintro store ⟨⟩ _
      exact GroupedStore.create_separate created
  | @locate tier machine lookup entries located after before ran ih =>
      obtain ⟨_, base, _, ended, _⟩ := ColdTier.locate_exists before.valid lookup entries machine
      rw [ended] at ran
      cases ran
      cases tier with
      | plain _ => exact nofun
      | grouped store =>
          rintro _ ⟨⟩ new
          exact ih store rfl new
  | @touch tier machine located cost after before inside ran ih =>
      cases tier with
      | plain store =>
          have inside : store.InRange located := inside
          obtain ⟨_, _, ended, _⟩ := PartitionStore.touch_exists inside machine
          rw [ColdTier.outcome_touch_plain ended] at ran
          cases ran
          exact nofun
      | grouped store =>
          obtain ⟨_, _, ended, advances, _⟩ :=
            GroupedStore.touch_advances before.valid inside machine
          rw [ColdTier.outcome_touch_grouped ended] at ran
          cases ran
          rintro _ ⟨⟩ new
          have counted := advances.passes_eq
          have old : store.passes = 0 := by omega
          rw [GroupedStore.lists_touched (new.trans old.symm)]
          exact ih store rfl old

end ColdTier

namespace GroupedStore

variable [Scalar τ] {store : GroupedStore τ}

/-- A pass over the selection of a store has taken back a block that holds no entries. -/
structure Reclaims (settled : GroupedStore τ) (drained : EraseBlock) (left : GroupedStore τ) :
    Prop where
  passes_eq : left.passes = settled.passes + 1
  blocks_lt : left.blocks.length < settled.blocks.length
  /-- What leaves the stale entries are those of the whole selection. -/
  stale_eq : left.staleEntries + settled.staleEntriesOf (settled.selection.map Prod.fst) =
    settled.staleEntries
  stale_le : drained.stale / settled.base.recordSize ≤
    settled.staleEntriesOf (settled.selection.map Prod.fst)
  dropped : ∀ partition ∈ drained.partitions, ∀ block ∈ left.blocks, partition ∉ block.partitions

theorem Represented.reclaims (represented : store.Represented) {drained : EraseBlock × Nat}
    (chosen : drained ∈ store.selection)
    (empty : ∀ partition ∈ drained.1.partitions, store.base.remaining partition = 0)
    (planned : store.plan? =
      some (store.selection, store.repack (store.selection.map Prod.fst))) :
    store.Reclaims drained.1 store.passed := by
  have selects := store.selects_selection
  have member : drained.1 ∈ store.selection.map Prod.fst := List.mem_map_of_mem chosen
  have advances := reorganized_advances selects (lt_of_plan? planned)
  rw [GroupedStore.passed, planned]
  constructor
  case passes_eq => exact advances.passes_eq
  case blocks_lt => exact advances.blocks_le
  case stale_eq => exact Nat.sub_add_cancel (represented.reclaimed_le selects)
  case stale_le =>
    rw [staleEntriesOf, total_eq_sum]
    exact List.single_le_sum (fun _ _ => Nat.zero_le _) _ (List.mem_map_of_mem member)
  case dropped =>
    intro partition inside
    exact represented.dropped selects member inside (empty partition inside)

/-- If an empty block is among those that a pass would take, then the pass is made as soon as
repacking them fills fewer blocks, which it does unless live partitions of different blocks are
mixed up; and the pass takes the empty block back. All this holds as far as words go. -/
theorem touch_reclaims (reachable : (ColdTier.grouped store).ReachableInWords)
    {located : List Located} (inside : store.base.InRange located) (something : located ≠ [])
    (machine : Machine τ)
    (enough : store.policy.triggerBlocks ≤ (store.settleAll located).candidates.length)
    {drained : EraseBlock × Nat} (chosen : drained ∈ (store.settleAll located).selection)
    (empty : ∀ partition ∈ drained.1.partitions,
      (store.settleAll located).base.remaining partition = 0) :
    let settled := store.settleAll located
    let selected := settled.selection.map Prod.fst
    ∃ cost left after,
      (ColdTier.grouped store).TouchesInWords located machine cost ⟨.grouped left, after⟩ ∧
      ((settled.repack selected).length < selected.length →
        cost.invalidations = 1 ∧ settled.Reclaims drained.1 left) ∧
      (¬ (settled.repack selected).length < selected.length →
        cost.invalidations = 0 ∧ left = settled) ∧
      (selected.Pairwise settled.Apart → (settled.repack selected).length < selected.length) ∧
      (store.passes = 0 → selected.Pairwise settled.Apart) := by
  intro settled selected
  have represented : settled.Represented := Represented.settleAll reachable.valid located
  have selects : settled.Selects settled.selection := settled.selects_selection
  have known : ∀ block ∈ selected, block ∈ settled.blocks := by
    intro block member
    obtain ⟨pair, isSelected, rfl⟩ := List.mem_map.mp member
    exact List.mem_of_getElem? (selects.mem pair isSelected)
  obtain ⟨cost, after, ran, advances, counted⟩ := touch_advances reachable.valid inside machine
  have isEmpty : located.isEmpty = false := by simpa using something
  have left : store.touched located = settled.passed := by
    rw [touched, isEmpty]
    rfl
  rw [isEmpty] at counted
  rw [left] at ran
  have length : selected.length = settled.selection.length := List.length_map _
  have plan := settled.plan?_eq
  rw [if_neg (by rw [policy_settleAll]; exact Nat.not_lt.mpr enough), ← length] at plan
  have touches : (ColdTier.grouped store).TouchesInWords located machine cost
      ⟨.grouped settled.passed, after⟩ :=
    ColdTier.touchesInWords_of_touch reachable.valid inside (ColdTier.outcome_touch_grouped ran)
  refine ⟨cost, settled.passed, after, touches, ?_, ?_, ?_, ?_⟩
  · intro fewer
    rw [if_pos fewer] at plan
    refine ⟨?_, represented.reclaims chosen empty plan⟩
    simp [counted, due, settled, plan]
  · intro same
    rw [if_neg same] at plan
    refine ⟨?_, ?_⟩
    · simp [counted, due, settled, plan]
    · rw [passed, plan]
  · intro apart
    exact represented.repack_length_lt known apart (List.mem_map_of_mem chosen) empty
  · intro new
    apply selects.apart
    rw [lists_settleAll]
    exact reachable.reachable.separate store rfl new

theorem touch_reclaims_of_three_blocks :
    ∃ base, ∃ start : GroupedStore Rat,
      (PartitionStore.create 6 1 2 .blockRewrite : Except (Error Rat) PartitionStore) = .ok base ∧
      GroupedStore.create base 0 ⟨2, 1, 1⟩ = .ok start ∧
      ∃ machine cost left after,
        outcome (ColdTier.touchInWords [⟨0, 2⟩, ⟨1, 1⟩]) ⟨.grouped start, machine⟩ =
          .ok (.ok cost, ⟨.grouped left, after⟩) ∧
        left.passes = 1 ∧ left.blocks.length < 3 ∧ left.staleEntries = 0 := by
  let base : PartitionStore := ⟨1, 2, #[⟨2, 2⟩, ⟨2, 2⟩, ⟨2, 2⟩], .blockRewrite, 0, 0⟩
  let start : GroupedStore Rat := ⟨base, ⟨2, 1, 1⟩,
    [⟨2, 2, 0, [0]⟩, ⟨2, 2, 0, [1]⟩, ⟨2, 2, 0, [2]⟩], #[some 0, some 1, some 2], 2, 0, 0⟩
  let machine : Machine Rat := .create (.create (.pcm ⟨⟨"PCM", 64, 1, 2⟩, 0⟩))
  have laidOut : (PartitionStore.create 6 1 2 .blockRewrite :
    Except (Error Rat) PartitionStore) = .ok base := rfl
  have grouped : GroupedStore.create base 0 ⟨2, 1, 1⟩ = .ok start := by cbv
  have settled : start.settleAll [⟨0, 2⟩, ⟨1, 1⟩] =
      { start with
        base := { base with partitions := #[⟨2, 0⟩, ⟨2, 1⟩, ⟨2, 2⟩] }
        blocks := [⟨2, 0, 2, [0]⟩, ⟨2, 1, 1, [1]⟩, ⟨2, 2, 0, [2]⟩]
        staleEntries := 3 } := by cbv
  have selected : (start.settleAll [⟨0, 2⟩, ⟨1, 1⟩]).selection =
      [(⟨2, 0, 2, [0]⟩, 0), (⟨2, 1, 1, [1]⟩, 1)] := by rw [settled]; cbv
  have inside : start.base.InRange [⟨0, 2⟩, ⟨1, 1⟩] := by
    simp [PartitionStore.InRange, start, base]
  have chosen : (⟨2, 0, 2, [0]⟩, 0) ∈ (start.settleAll [⟨0, 2⟩, ⟨1, 1⟩]).selection := by
    simp [selected]
  obtain ⟨done, ended⟩ : ∃ done,
      outcome (ColdTier.touchInWords [⟨0, 2⟩, ⟨1, 1⟩]) ⟨.grouped start, machine⟩ = .ok done := by
    refine ⟨?_, ?ended⟩
    case ended => cbv; rfl
  obtain ⟨cost, left, after, touches, passes, -, fewer, apart⟩ :=
    touch_reclaims (.new laidOut grouped) inside (by simp) machine
      (by rw [settled]; cbv) chosen (by rw [settled]; simp; cbv)
  have ran := ended.trans (touches.limits.eq_of_ok ended).symm
  obtain ⟨_, reclaims⟩ := passes (fewer (apart rfl))
  refine ⟨base, start, laidOut, grouped, machine, cost, left, after, ran, ?_, ?_, ?_⟩
  · rw [reclaims.passes_eq, settled]
  · have fewer := reclaims.blocks_lt
    rwa [settled] at fewer
  · have reclaimed : (start.settleAll [⟨0, 2⟩, ⟨1, 1⟩]).staleEntriesOf
        ((start.settleAll [⟨0, 2⟩, ⟨1, 1⟩]).selection.map Prod.fst) = 3 := by
      rw [selected, settled]
      cbv
    have stale := reclaims.stale_eq
    rw [reclaimed, settled] at stale
    exact Nat.add_right_cancel stale

/-- Enough blocks are of low usage after a touch, and an empty one is among those that a pass would
take, but none has been made. -/
structure Overlooks (before : GroupedStore τ) (located : List Located) (left : GroupedStore τ)
    (drained : EraseBlock × Nat) : Prop where
  reachable : (ColdTier.grouped before).ReachableInWords
  inside : before.base.InRange located
  ran : ∃ machine cost after, outcome (ColdTier.touchInWords located) ⟨.grouped before, machine⟩ =
    .ok (.ok cost, ⟨.grouped left, after⟩)
  enough : left.policy.triggerBlocks ≤ left.candidates.length
  chosen : drained ∈ left.selection
  empty : ∀ partition ∈ drained.1.partitions, left.base.remaining partition = 0
  passes_eq : left.passes = before.passes
  blocks_eq : left.blocks.length = before.blocks.length

/-- Five partitions, of which a pass has put two that are not neighbours into one block. -/
def paired : GroupedStore Rat := ⟨
  ⟨1, 6, #[⟨6, 3⟩, ⟨6, 6⟩, ⟨6, 3⟩, ⟨6, 6⟩, ⟨6, 6⟩], .blockRewrite, 0, 0⟩, ⟨3, 2, 1⟩,
  [⟨6, 6, 0, [0, 2]⟩, ⟨6, 6, 0, [1]⟩, ⟨6, 6, 0, [3]⟩, ⟨6, 6, 0, [4]⟩],
  #[some 0, some 1, some 0, some 2, some 3], 6, 1, 0⟩

theorem paired_reachable : (ColdTier.grouped paired).ReachableInWords := by
  let machine : Machine Rat := .create (.create (.pcm ⟨⟨"PCM", 64, 1, 2⟩, 0⟩))
  let base : PartitionStore :=
    ⟨1, 6, #[⟨6, 6⟩, ⟨6, 6⟩, ⟨6, 6⟩, ⟨6, 6⟩, ⟨6, 6⟩], .blockRewrite, 0, 0⟩
  let start : GroupedStore Rat := ⟨base, ⟨3, 2, 1⟩,
    [⟨6, 6, 0, [0]⟩, ⟨6, 6, 0, [1]⟩, ⟨6, 6, 0, [2]⟩, ⟨6, 6, 0, [3]⟩, ⟨6, 6, 0, [4]⟩],
    #[some 0, some 1, some 2, some 3, some 4], 6, 0, 0⟩
  have laidOut : (PartitionStore.create 30 1 6 .blockRewrite :
    Except (Error Rat) PartitionStore) = .ok base := rfl
  have grouped : GroupedStore.create base 0 ⟨3, 2, 1⟩ = .ok start := by cbv
  have inside : start.base.InRange [⟨0, 3⟩, ⟨2, 3⟩] := by
    simp [PartitionStore.InRange, start, base]
  obtain ⟨cost, after, ran⟩ : ∃ cost after,
      outcome (ColdTier.touchInWords [⟨0, 3⟩, ⟨2, 3⟩]) ⟨.grouped start, machine⟩ =
        .ok (.ok cost, ⟨.grouped paired, after⟩) := by
    refine ⟨?_, ?_, ?ran⟩
    case ran => cbv; rfl
  exact (ColdTier.ReachableInWords.new laidOut grouped).touch inside ran

/-- Two passes lead to two full blocks with mixed up partitions, which a third pass could only swap
for two others. -/
theorem overlooks_mixed :
    ∃ mixed left : GroupedStore Rat,
      mixed.Overlooks [⟨2, 1⟩, ⟨3, 1⟩, ⟨4, 6⟩] left (⟨6, 0, 6, [4]⟩, 2) := by
  let machine : Machine Rat := .create (.create (.pcm ⟨⟨"PCM", 64, 1, 2⟩, 0⟩))
  let twice : GroupedStore Rat := { paired with
    base := { paired.base with partitions := #[⟨6, 3⟩, ⟨6, 4⟩, ⟨6, 3⟩, ⟨6, 2⟩, ⟨6, 6⟩] }
    blocks := [⟨6, 6, 0, [0, 2]⟩, ⟨6, 6, 0, [1, 3]⟩, ⟨6, 6, 0, [4]⟩]
    holder := #[some 0, some 1, some 0, some 1, some 2]
    passes := 2 }
  let left : GroupedStore Rat := { twice with
    base := { paired.base with partitions := #[⟨6, 3⟩, ⟨6, 4⟩, ⟨6, 2⟩, ⟨6, 1⟩, ⟨6, 0⟩] }
    blocks := [⟨6, 5, 1, [0, 2]⟩, ⟨6, 5, 1, [1, 3]⟩, ⟨6, 0, 6, [4]⟩]
    staleEntries := 8 }
  obtain ⟨_, _, second⟩ : ∃ cost after,
      outcome (ColdTier.touchInWords [⟨1, 2⟩, ⟨3, 4⟩]) ⟨.grouped paired, machine⟩ =
        .ok (.ok cost, ⟨.grouped twice, after⟩) := by
    refine ⟨?_, ?_, ?second⟩
    case second => cbv; rfl
  obtain ⟨cost, after, third⟩ : ∃ cost after,
      outcome (ColdTier.touchInWords [⟨2, 1⟩, ⟨3, 1⟩, ⟨4, 6⟩]) ⟨.grouped twice, machine⟩ =
        .ok (.ok cost, ⟨.grouped left, after⟩) := by
    refine ⟨?_, ?_, ?third⟩
    case third => cbv; rfl
  have mixed : (ColdTier.grouped twice).ReachableInWords :=
    paired_reachable.touch (by simp [PartitionStore.InRange, ColdTier.base, paired]) second
  have inside : twice.base.InRange [⟨2, 1⟩, ⟨3, 1⟩, ⟨4, 6⟩] := by
    simp [PartitionStore.InRange, twice]
  have selected : left.selection =
      [(⟨6, 0, 6, [4]⟩, 2), (⟨6, 5, 1, [0, 2]⟩, 0), (⟨6, 5, 1, [1, 3]⟩, 1)] := by cbv
  refine ⟨twice, left, mixed, inside, ⟨machine, cost, after, third⟩, by cbv, ?_, ?_, rfl, rfl⟩
  · simp [selected]
  · simp [left, PartitionStore.remaining]

/-- What is left of two blocks that one touch has emptied, when a pass takes only one block. -/
def halfReclaimed : GroupedStore Rat :=
  ⟨⟨1, 1, #[⟨1, 0⟩, ⟨1, 0⟩], .blockRewrite, 0, 0⟩, ⟨1, 1, 1⟩, [⟨1, 0, 1, [1]⟩], #[none, some 0],
    1, 1, 1⟩

theorem halfReclaimed_reachable : (ColdTier.grouped halfReclaimed).ReachableInWords := by
  let machine : Machine Rat := .create (.create (.pcm ⟨⟨"PCM", 64, 1, 2⟩, 0⟩))
  let base : PartitionStore := ⟨1, 1, #[⟨1, 1⟩, ⟨1, 1⟩], .blockRewrite, 0, 0⟩
  let start : GroupedStore Rat :=
    ⟨base, ⟨1, 1, 1⟩, [⟨1, 1, 0, [0]⟩, ⟨1, 1, 0, [1]⟩], #[some 0, some 1], 1, 0, 0⟩
  have laidOut : (PartitionStore.create 2 1 1 .blockRewrite :
    Except (Error Rat) PartitionStore) = .ok base := rfl
  have grouped : GroupedStore.create base 0 ⟨1, 1, 1⟩ = .ok start := by cbv
  have inside : start.base.InRange [⟨0, 1⟩, ⟨1, 1⟩] := by
    simp [PartitionStore.InRange, start, base]
  obtain ⟨cost, after, ran⟩ : ∃ cost after,
      outcome (ColdTier.touchInWords [⟨0, 1⟩, ⟨1, 1⟩]) ⟨.grouped start, machine⟩ =
        .ok (.ok cost, ⟨.grouped halfReclaimed, after⟩) := by
    refine ⟨?_, ?_, ?ran⟩
    case ran => cbv; rfl
  exact (ColdTier.ReachableInWords.new laidOut grouped).touch inside ran

/-- A touch of nothing makes no pass, even where one is due. -/
theorem overlooks_nothing :
    ∃ separate : GroupedStore Rat, separate.Overlooks [] separate (⟨1, 0, 1, [1]⟩, 0) := by
  let machine : Machine Rat := .create (.create (.pcm ⟨⟨"PCM", 64, 1, 2⟩, 0⟩))
  have inside : halfReclaimed.base.InRange [] := List.forall_mem_nil _
  have selected : halfReclaimed.selection = [(⟨1, 0, 1, [1]⟩, 0)] := by cbv
  refine ⟨halfReclaimed, halfReclaimed_reachable, inside, ⟨machine, .empty, machine, rfl⟩, by cbv,
    ?_, ?_, rfl, rfl⟩
  · simp [selected]
  · simp [halfReclaimed, PartitionStore.remaining]

/-- An empty block stays where the live partitions of others are mixed up, and after a touch of
nothing. -/
theorem empty_block_overlooked :
    (∃ mixed left : GroupedStore Rat,
      mixed.Overlooks [⟨2, 1⟩, ⟨3, 1⟩, ⟨4, 6⟩] left (⟨6, 0, 6, [4]⟩, 2)) ∧
      ∃ separate : GroupedStore Rat, separate.Overlooks [] separate (⟨1, 0, 1, [1]⟩, 0) :=
  ⟨overlooks_mixed, overlooks_nothing⟩

end GroupedStore

end MergeCost
