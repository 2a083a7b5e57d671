import MergeCost.Cold.GroupedStore
import MergeCost.Proofs.Cold.Drain
import MergeCost.Proofs.Cold.Packing
import MergeCost.Simulation.Outcome

/-!
How erase blocks hold the partitions of a store. The lists of partitions in the blocks are the
layout; which block holds a partition, how many bytes of a block are valid or stale, and how many
entries are stale altogether, all follow the layout and the entries that remain. `Represented` says
so, and marking and reorganizing keep it.
-/

namespace MergeCost

namespace GroupedStore

variable {τ : Type}

/-- Lists of partitions that share out a store: each partition that holds entries is in one of them,
none is listed twice, and the lists go by their first partition. -/
structure Layout (lists : List (List Nat)) (base : PartitionStore) : Prop where
  once : lists.flatten.Nodup
  inside : ∀ partition ∈ lists.flatten, partition < base.partitions.size
  listed : ∀ partition, 0 < base.remaining partition → partition ∈ lists.flatten
  nonempty : ∀ list ∈ lists, list ≠ []
  ordered : lists.Pairwise fun left right =>
    ∀ first ∈ left.head?, ∀ second ∈ right.head?, first < second

/-- A block of a store with its bytes: those of the entries that remain, and stale ones. -/
structure Accounted (block : EraseBlock) (base : PartitionStore) (capacity : Nat) : Prop where
  capacity_eq : block.capacity = capacity
  valid_eq : block.valid = (block.partitions.map base.remainingBytes).sum
  stale_dvd : base.recordSize ∣ block.stale
  within : block.valid + block.stale ≤ capacity

def lists (store : GroupedStore τ) : List (List Nat) := store.blocks.map EraseBlock.partitions

structure Represented (store : GroupedStore τ) : Prop where
  base : store.base.Sound
  layout : Layout store.lists store.base
  holder_eq : store.holder = holders store.blocks store.base.partitions.size
  accounted : ∀ block ∈ store.blocks, Accounted block store.base store.blockCapacity
  stale_eq : store.staleEntries * store.base.recordSize =
    (store.blocks.map EraseBlock.stale).sum
  room : store.base.partitionBytes ≤ store.blockCapacity

/-! The holders of partitions -/

/-- The holders after the partitions of a block have been put under its position. -/
def hold (holder : Array (Option Nat)) (placed : EraseBlock × Nat) : Array (Option Nat) :=
  placed.1.partitions.foldl
    (fun holder partition => holder.setIfInBounds partition (some placed.2)) holder

theorem holders_eq_foldl (blocks : List EraseBlock) (count : Nat) :
    holders blocks count = blocks.zipIdx.foldl hold (Array.replicate count none) := rfl

theorem size_setAll (partitions : List Nat) (holder : Array (Option Nat)) (position : Nat) :
    (partitions.foldl (fun holder partition => holder.setIfInBounds partition (some position))
      holder).size = holder.size := by
  induction partitions generalizing holder with
  | nil => rfl
  | cons first rest ih => rw [List.foldl_cons, ih, Array.size_setIfInBounds]

theorem getElem?_setAll (partitions : List Nat) (holder : Array (Option Nat))
    (position partition : Nat) :
    (partitions.foldl (fun holder partition => holder.setIfInBounds partition (some position))
      holder)[partition]? =
      if partition ∈ partitions ∧ partition < holder.size then some (some position)
      else holder[partition]? := by
  induction partitions generalizing holder with
  | nil => simp
  | cons first rest ih =>
      rw [List.foldl_cons, ih, Array.size_setIfInBounds]
      by_cases later : partition ∈ rest ∧ partition < holder.size
      · rw [if_pos later, if_pos ⟨by simp [later.1], later.2⟩]
      · rw [if_neg later, Array.getElem?_setIfInBounds]
        by_cases here : first = partition
        · subst here
          by_cases inside : first < holder.size <;> simp [inside]
        · have unlisted : ¬(partition ∈ first :: rest ∧ partition < holder.size) := by
            simpa [Ne.symm here] using later
          rw [if_neg here, if_neg unlisted]

@[simp] theorem size_hold (holder : Array (Option Nat)) (placed : EraseBlock × Nat) :
    (hold holder placed).size = holder.size :=
  size_setAll placed.1.partitions holder placed.2

theorem getElem?_hold (holder : Array (Option Nat)) (placed : EraseBlock × Nat)
    (partition : Nat) :
    (hold holder placed)[partition]? =
      if partition ∈ placed.1.partitions ∧ partition < holder.size then some (some placed.2)
      else holder[partition]? :=
  getElem?_setAll placed.1.partitions holder placed.2 partition

theorem size_foldl_hold (placed : List (EraseBlock × Nat)) (holder : Array (Option Nat)) :
    (placed.foldl hold holder).size = holder.size := by
  induction placed generalizing holder with
  | nil => rfl
  | cons first rest ih => rw [List.foldl_cons, ih, size_hold]

theorem size_holders (blocks : List EraseBlock) (count : Nat) :
    (holders blocks count).size = count := by
  rw [holders_eq_foldl, size_foldl_hold, Array.size_replicate]

theorem getElem?_foldl_hold_of_not_mem {blocks : List EraseBlock} {partition : Nat}
    (unlisted : partition ∉ blocks.flatMap EraseBlock.partitions) (start : Nat)
    (holder : Array (Option Nat)) :
    ((blocks.zipIdx start).foldl hold holder)[partition]? = holder[partition]? := by
  induction blocks generalizing start holder with
  | nil => rfl
  | cons block rest ih =>
      rw [List.flatMap_cons, List.mem_append, not_or] at unlisted
      rw [List.zipIdx_cons, List.foldl_cons, ih unlisted.2, getElem?_hold,
        if_neg fun held => unlisted.1 held.1]

theorem getElem?_foldl_hold_of_mem {blocks : List EraseBlock} {block : EraseBlock}
    {start partition position : Nat} {holder : Array (Option Nat)}
    (once : (blocks.flatMap EraseBlock.partitions).Nodup)
    (placed : (block, position) ∈ blocks.zipIdx start) (member : partition ∈ block.partitions)
    (inside : partition < holder.size) :
    ((blocks.zipIdx start).foldl hold holder)[partition]? = some (some position) := by
  induction blocks generalizing start holder with
  | nil => cases placed
  | cons first rest ih =>
      rw [List.flatMap_cons, List.nodup_append'] at once
      obtain ⟨_, restOnce, apart⟩ := once
      rw [List.zipIdx_cons] at placed
      rw [List.zipIdx_cons, List.foldl_cons]
      rcases List.mem_cons.mp placed with here | later
      · cases here
        rw [getElem?_foldl_hold_of_not_mem (apart member), getElem?_hold, if_pos ⟨member, inside⟩]
      · exact ih restOnce later (by rwa [size_hold])

theorem getElem?_holders {blocks : List EraseBlock} {count : Nat}
    (once : (blocks.flatMap EraseBlock.partitions).Nodup)
    (inside : ∀ partition ∈ blocks.flatMap EraseBlock.partitions, partition < count)
    (partition position : Nat) :
    (holders blocks count)[partition]? = some (some position) ↔
      ∃ block, blocks[position]? = some block ∧ partition ∈ block.partitions := by
  have held {block : EraseBlock} {position : Nat} (found : blocks[position]? = some block)
      (member : partition ∈ block.partitions) :
      (holders blocks count)[partition]? = some (some position) := by
    have listed := List.mem_flatMap.mpr ⟨block, List.mem_of_getElem? found, member⟩
    rw [holders_eq_foldl]
    apply getElem?_foldl_hold_of_mem once (List.mk_mem_zipIdx_iff_getElem?.mpr found) member
    rw [Array.size_replicate]
    exact inside partition listed
  constructor
  · intro holder
    by_cases listed : partition ∈ blocks.flatMap EraseBlock.partitions
    · obtain ⟨block, mem, member⟩ := List.mem_flatMap.mp listed
      obtain ⟨other, found⟩ := List.mem_iff_getElem?.mp mem
      have same : other = position := by simpa [held found member] using holder
      exact ⟨block, same ▸ found, member⟩
    · rw [holders_eq_foldl, getElem?_foldl_hold_of_not_mem listed,
        Array.getElem?_replicate] at holder
      split at holder <;> cases holder
  · rintro ⟨block, found, member⟩
    exact held found member

theorem holders_congr {left right : List EraseBlock} (count : Nat)
    (same : left.map EraseBlock.partitions = right.map EraseBlock.partitions) :
    holders left count = holders right count := by
  have viaLists (blocks : List EraseBlock) : holders blocks count =
      (blocks.map EraseBlock.partitions).zipIdx.foldl (fun holder placed => placed.1.foldl
        (fun holder partition => holder.setIfInBounds partition (some placed.2)) holder)
        (Array.replicate count none) := by
    rw [List.zipIdx_map, List.foldl_map]
    rfl
  rw [viaLists, viaLists, same]

variable {store : GroupedStore τ}

theorem flatten_lists (store : GroupedStore τ) :
    store.lists.flatten = store.blocks.flatMap EraseBlock.partitions := by
  rw [lists, List.flatMap_def]

theorem Represented.holder_iff (represented : store.Represented) (partition position : Nat) :
    store.holder[partition]? = some (some position) ↔
      ∃ block, store.blocks[position]? = some block ∧ partition ∈ block.partitions := by
  rw [represented.holder_eq]
  apply getElem?_holders
  · rw [← flatten_lists]
    exact represented.layout.once
  · rw [← flatten_lists]
    exact represented.layout.inside

/-! Entries that leave -/

def settle (store : GroupedStore τ) (part : Located) : GroupedStore τ :=
  { store with base := store.base.drain part }.markStale part.partition
    (min part.entries (store.base.remaining part.partition))

def settleAll (store : GroupedStore τ) (located : List Located) : GroupedStore τ :=
  located.foldl settle store

theorem Layout.drain {lists : List (List Nat)} {base : PartitionStore} (layout : Layout lists base)
    (part : Located) : Layout lists (base.drain part) where
  once := layout.once
  inside := by simpa using layout.inside
  listed := by
    intro partition some
    rw [PartitionStore.remaining_drain] at some
    exact layout.listed partition (by omega)
  nonempty := layout.nonempty
  ordered := layout.ordered

theorem remainingBytes_drain (base : PartitionStore) (part : Located) (partition : Nat) :
    base.remainingBytes partition = (base.drain part).remainingBytes partition +
      if part.partition = partition then
        min part.entries (base.remaining part.partition) * base.recordSize
      else 0 := by
  rw [PartitionStore.remainingBytes, PartitionStore.remainingBytes,
    PartitionStore.remaining_drain]
  by_cases same : part.partition = partition
  · subst same
    simp only [if_true, PartitionStore.drain]
    rw [← Nat.add_mul]
    congr 1
    omega
  · simp [same, Ne.symm same, PartitionStore.drain]

/-- The bytes of different partitions lose those of the entries that leave one of them. -/
theorem sum_remainingBytes_drain (base : PartitionStore) (part : Located) {partitions : List Nat}
    (once : partitions.Nodup) :
    (partitions.map base.remainingBytes).sum =
      (partitions.map (base.drain part).remainingBytes).sum +
        if part.partition ∈ partitions then
          min part.entries (base.remaining part.partition) * base.recordSize
        else 0 := by
  induction partitions with
  | nil => rfl
  | cons first rest ih =>
      obtain ⟨new, restOnce⟩ := List.nodup_cons.mp once
      rw [List.map_cons, List.sum_cons, List.map_cons, List.sum_cons, ih restOnce,
        remainingBytes_drain base part first]
      by_cases here : part.partition = first
      · subst here
        simp only [new, if_true, if_false, List.mem_cons, true_or]
        omega
      · simp only [here, if_false, List.mem_cons, false_or]
        omega

theorem Accounted.drain_elsewhere {block : EraseBlock} {base : PartitionStore} {capacity : Nat}
    (accounted : Accounted block base capacity) (once : block.partitions.Nodup) {part : Located}
    (elsewhere : part.partition ∉ block.partitions) :
    Accounted block (base.drain part) capacity where
  capacity_eq := accounted.capacity_eq
  valid_eq := by
    have bytes := sum_remainingBytes_drain base part once
    rw [if_neg elsewhere, Nat.add_zero] at bytes
    rw [accounted.valid_eq, bytes]
  stale_dvd := accounted.stale_dvd
  within := accounted.within

theorem Accounted.drain_here {block : EraseBlock} {base : PartitionStore} {capacity : Nat}
    (accounted : Accounted block base capacity) (once : block.partitions.Nodup) {part : Located}
    (here : part.partition ∈ block.partitions) {bytes : Nat}
    (left : bytes = min part.entries (base.remaining part.partition) * base.recordSize) :
    Accounted (block.invalidate bytes) (base.drain part) capacity ∧
      (block.invalidate bytes).stale = block.stale + bytes := by
  have sum := sum_remainingBytes_drain base part once
  rw [if_pos here, ← left] at sum
  have valid := accounted.valid_eq
  have enough : min bytes block.valid = bytes := by omega
  have kept := block.invalidate_bytes bytes
  have within := accounted.within
  refine ⟨⟨accounted.capacity_eq, ?_, ?_, by omega⟩, ?_⟩
  · simp only [EraseBlock.invalidate, enough]
    omega
  · simp only [EraseBlock.invalidate, enough]
    apply Nat.dvd_add accounted.stale_dvd
    rw [left]
    exact Nat.dvd_mul_left _ _
  · simp only [EraseBlock.invalidate, enough]

/-- A list around one of its elements, before and after that is changed. -/
theorem exists_modify {α : Type} {items : List α} {position : Nat} {item : α}
    (found : items[position]? = some item) :
    ∃ left right, items = left ++ item :: right ∧
      ∀ change, items.modify position change = left ++ change item :: right := by
  obtain ⟨inside, rfl⟩ := List.getElem?_eq_some_iff.mp found
  refine ⟨items.take position, items.drop (position + 1), ?_, ?_⟩
  · rw [← List.drop_eq_getElem_cons inside, List.take_append_drop]
  · intro change
    exact List.modify_eq_take_cons_drop inside

theorem Represented.partitions_once (represented : store.Represented) {block : EraseBlock}
    (member : block ∈ store.blocks) : block.partitions.Nodup :=
  (List.nodup_flatten.mp represented.layout.once).1 _ (List.mem_map_of_mem member)

/-- A partition that no block holds has nothing left. -/
theorem Represented.unheld (represented : store.Represented) {partition : Nat}
    (holder : (store.holder[partition]?).join = none) :
    (∀ block ∈ store.blocks, partition ∉ block.partitions) ∧
      store.base.remaining partition = 0 := by
  have elsewhere : ∀ block ∈ store.blocks, partition ∉ block.partitions := by
    intro block member inside
    obtain ⟨position, found⟩ := List.mem_iff_getElem?.mp member
    have held := (represented.holder_iff partition position).mpr ⟨block, found, inside⟩
    simp [held] at holder
  refine ⟨elsewhere, ?_⟩
  by_contra some
  have listed := represented.layout.listed _ (Nat.pos_of_ne_zero some)
  rw [flatten_lists] at listed
  obtain ⟨block, member, inside⟩ := List.mem_flatMap.mp listed
  exact elsewhere block member inside

/-- The block that holds a partition stands among others that do not list it. -/
theorem Represented.held (represented : store.Represented) {partition position : Nat}
    (holder : store.holder[partition]? = some (some position)) :
    ∃ left block right, store.blocks = left ++ block :: right ∧ partition ∈ block.partitions ∧
      (∀ other ∈ left ++ right, partition ∉ other.partitions) ∧
      ∀ change, store.blocks.modify position change = left ++ change block :: right := by
  obtain ⟨block, found, here⟩ := (represented.holder_iff _ _).mp holder
  obtain ⟨left, right, blocks, modified⟩ := exists_modify found
  refine ⟨left, block, right, blocks, here, ?_, modified⟩
  have apart : (left.flatMap EraseBlock.partitions ++
      (block.partitions ++ right.flatMap EraseBlock.partitions)).Nodup := by
    have all := represented.layout.once
    rwa [flatten_lists, blocks, List.flatMap_append, List.flatMap_cons] at all
  rw [List.nodup_append', List.nodup_append'] at apart
  intro other member inside
  rcases List.mem_append.mp member with before | after
  · exact apart.2.2 (List.mem_flatMap.mpr ⟨other, before, inside⟩) (List.mem_append_left _ here)
  · exact apart.2.1.2.2 here (List.mem_flatMap.mpr ⟨other, after, inside⟩)

theorem Represented.settle_unheld (represented : store.Represented) {part : Located}
    (holder : (store.holder[part.partition]?).join = none) :
    (store.settle part).Represented := by
  obtain ⟨elsewhere, empty⟩ := represented.unheld holder
  have settled : store.settle part = { store with base := store.base.drain part } := by
    simp [GroupedStore.settle, markStale, holder, empty]
  rw [settled]
  constructor
  case base => exact represented.base.drain part
  case layout => exact represented.layout.drain part
  case holder_eq => simpa using represented.holder_eq
  case accounted =>
    intro block member
    exact (represented.accounted block member).drain_elsewhere
      (represented.partitions_once member) (elsewhere block member)
  case stale_eq => exact represented.stale_eq
  case room => exact represented.room

theorem Represented.settle_held (represented : store.Represented) {part : Located} {position : Nat}
    (holder : store.holder[part.partition]? = some (some position)) :
    (store.settle part).Represented := by
  obtain ⟨left, block, right, blocks, here, elsewhere, modified⟩ := represented.held holder
  have member : block ∈ store.blocks := by simp [blocks]
  have others : ∀ other ∈ left ++ right, Accounted other (store.base.drain part)
      store.blockCapacity := by
    intro other inside
    have old : other ∈ store.blocks := by
      rw [blocks]
      simp only [List.mem_append, List.mem_cons] at inside ⊢
      exact inside.imp_right Or.inr
    exact (represented.accounted other old).drain_elsewhere (represented.partitions_once old)
      (elsewhere other inside)
  obtain ⟨hereAccounted, stale⟩ := (represented.accounted block member).drain_here
    (represented.partitions_once member) here rfl
  have settled : (store.settle part).blocks = left ++
      block.invalidate (min part.entries (store.base.remaining part.partition)
        * store.base.recordSize) :: right := by
    simp only [GroupedStore.settle, markStale, holder, Option.join_some, PartitionStore.drain]
    exact modified _
  have sameLists : (store.settle part).lists = store.lists := by
    rw [lists, lists, settled, blocks]
    simp
  constructor
  case base => exact represented.base.drain part
  case layout => exact sameLists ▸ represented.layout.drain part
  case holder_eq =>
    rw [holders_congr _ sameLists]
    simpa [GroupedStore.settle, markStale] using represented.holder_eq
  case accounted =>
    intro other inside
    rw [settled] at inside
    rcases List.mem_append.mp inside with before | inside
    · exact others other (List.mem_append_left _ before)
    · rcases List.mem_cons.mp inside with rfl | after
      · exact hereAccounted
      · exact others other (List.mem_append_right _ after)
  case stale_eq =>
    have sum := represented.stale_eq
    rw [blocks, List.map_append, List.map_cons, List.sum_append, List.sum_cons] at sum
    rw [settled, List.map_append, List.map_cons, List.sum_append, List.sum_cons, stale]
    simp only [GroupedStore.settle, markStale, PartitionStore.drain, Nat.add_mul]
    omega
  case room => exact represented.room

theorem Represented.settle (represented : store.Represented) (part : Located) :
    (store.settle part).Represented := by
  cases holder : (store.holder[part.partition]?).join with
  | none => exact represented.settle_unheld holder
  | some position => exact represented.settle_held (Option.join_eq_some_iff.mp holder)

theorem Represented.settleAll (represented : store.Represented) (located : List Located) :
    (store.settleAll located).Represented := by
  induction located generalizing store with
  | nil => exact represented
  | cons part rest ih => exact ih (represented.settle part)

/-! Reorganization -/

def keptBlocks (store : GroupedStore τ) (positions : List Nat) : List EraseBlock :=
  (store.blocks.zipIdx.filter fun (_, position) => !positions.contains position).map Prod.fst

def freshBlocks (store : GroupedStore τ) (bins : List Bin) : List EraseBlock :=
  bins.map fun bin => .create store.blockCapacity bin.items bin.size

/-- Blocks of a store with their positions, none of them twice. -/
structure Selects (store : GroupedStore τ) (selected : List (EraseBlock × Nat)) : Prop where
  mem : ∀ pair ∈ selected, store.blocks[pair.2]? = some pair.1
  distinct : (selected.map Prod.snd).Nodup

theorem Selects.blocks_perm {selected : List (EraseBlock × Nat)}
    (selects : store.Selects selected) :
    store.blocks.Perm (store.keptBlocks (selected.map Prod.snd) ++ selected.map Prod.fst) := by
  let positions := selected.map Prod.snd
  have positionsOnce : (store.blocks.zipIdx.map Prod.snd).Nodup := by
    rw [List.zipIdx_map_snd]
    exact List.nodup_range'
  have chosen :
      (store.blocks.zipIdx.filter fun pair => positions.contains pair.2).Perm selected := by
    apply (List.perm_ext_iff_of_nodup (positionsOnce.of_map.filter _) selects.distinct.of_map).mpr
    intro pair
    simp only [List.mem_filter, List.mem_zipIdx_iff_getElem?, List.contains_eq_mem,
      decide_eq_true_eq]
    constructor
    · rintro ⟨found, member⟩
      obtain ⟨other, inside, same⟩ := List.mem_map.mp member
      have block := selects.mem other inside
      rw [same, found] at block
      rwa [Prod.ext (Option.some.inj block) same.symm]
    · intro inside
      exact ⟨selects.mem pair inside, List.mem_map_of_mem inside⟩
  have parts := List.filter_append_perm (fun pair => positions.contains pair.2) store.blocks.zipIdx
  have ordered := (List.perm_append_comm.trans parts).symm.map Prod.fst
  rw [List.zipIdx_map_fst, List.map_append] at ordered
  exact ordered.trans ((chosen.map Prod.fst).append_left _)

theorem replaced_perm (store : GroupedStore τ) (positions : List Nat) (bins : List Bin) :
    (store.replaced positions bins).Perm (store.keptBlocks positions ++ store.freshBlocks bins) :=
  List.mergeSort_perm _ _

def moved (store : GroupedStore τ) (selected : List EraseBlock) : List Nat :=
  (selected.flatMap EraseBlock.partitions).filter (0 < store.base.remaining ·)

theorem mem_moved (store : GroupedStore τ) (selected : List EraseBlock) (partition : Nat) :
    partition ∈ store.moved selected ↔
      partition ∈ selected.flatMap EraseBlock.partitions ∧ 0 < store.base.remaining partition := by
  rw [moved, List.mem_filter, decide_eq_true_eq]

theorem flatMap_freshBlocks (store : GroupedStore τ) (selected : List EraseBlock) :
    ((store.freshBlocks (store.repack selected)).flatMap EraseBlock.partitions).Perm
      (store.moved selected) := by
  have items : (store.freshBlocks (store.repack selected)).flatMap EraseBlock.partitions =
      (store.repack selected).flatMap Bin.items := by
    rw [freshBlocks, List.flatMap_map]
    rfl
  rw [items, repack, Bin.pack_items]
  exact List.mergeSort_perm _ _

theorem firstBefore_trans (first second third : EraseBlock) (left : firstBefore first second)
    (right : firstBefore second third) : firstBefore first third := by
  unfold firstBefore at *
  generalize first.partitions.head? = firstHead at *
  generalize second.partitions.head? = secondHead at *
  generalize third.partitions.head? = thirdHead at *
  cases firstHead <;> cases secondHead <;> cases thirdHead <;> simp_all
  omega

theorem firstBefore_total (left right : EraseBlock) :
    (firstBefore left right || firstBefore right left) = true := by
  unfold firstBefore
  cases left.partitions.head? <;> cases right.partitions.head? <;> simp
  exact Nat.le_total _ _

/-- The blocks after a pass over the selected ones. -/
def repacked (store : GroupedStore τ) (selected : List (EraseBlock × Nat)) : List EraseBlock :=
  store.replaced (selected.map Prod.snd) (store.repack (selected.map Prod.fst))

section

variable {selected : List (EraseBlock × Nat)}

theorem Selects.mem_blocks (selects : store.Selects selected) (partition : Nat) :
    partition ∈ store.blocks.flatMap EraseBlock.partitions ↔
      partition ∈ (store.keptBlocks (selected.map Prod.snd)).flatMap EraseBlock.partitions ∨
        partition ∈ (selected.map Prod.fst).flatMap EraseBlock.partitions := by
  rw [(selects.blocks_perm.flatMap_right _).mem_iff, List.flatMap_append, List.mem_append]

theorem mem_repacked (store : GroupedStore τ) (selected : List (EraseBlock × Nat))
    (partition : Nat) :
    partition ∈ (store.repacked selected).flatMap EraseBlock.partitions ↔
      partition ∈ (store.keptBlocks (selected.map Prod.snd)).flatMap EraseBlock.partitions ∨
        partition ∈ (selected.map Prod.fst).flatMap EraseBlock.partitions ∧
          0 < store.base.remaining partition := by
  rw [repacked, ((store.replaced_perm _ _).flatMap_right _).mem_iff, List.flatMap_append,
    List.mem_append, (store.flatMap_freshBlocks _).mem_iff, mem_moved]

/-- A selection has no partition twice, and none in common with the blocks that stay. -/
theorem Represented.selected_once (represented : store.Represented)
    (selects : store.Selects selected) :
    ((store.keptBlocks (selected.map Prod.snd)).flatMap EraseBlock.partitions ++
      (selected.map Prod.fst).flatMap EraseBlock.partitions).Nodup := by
  rw [← List.flatMap_append]
  apply (selects.blocks_perm.flatMap_right _).nodup
  rw [← flatten_lists]
  exact represented.layout.once

theorem Represented.repacked_once (represented : store.Represented)
    (selects : store.Selects selected) :
    ((store.repacked selected).flatMap EraseBlock.partitions).Nodup := by
  have after := (store.replaced_perm (selected.map Prod.snd)
    (store.repack (selected.map Prod.fst))).flatMap_right EraseBlock.partitions
  rw [List.flatMap_append] at after
  apply (after.trans ((store.flatMap_freshBlocks _).append_left _)).nodup_iff.mpr
  exact (represented.selected_once selects).sublist ((List.filter_sublist).append_left _)

/-- A pass drops the partitions without entries in the blocks that it takes. -/
theorem Represented.dropped (represented : store.Represented) (selects : store.Selects selected)
    {block : EraseBlock} (chosen : block ∈ selected.map Prod.fst) {partition : Nat}
    (inside : partition ∈ block.partitions) (empty : store.base.remaining partition = 0) :
    ∀ left ∈ store.repacked selected, partition ∉ left.partitions := by
  intro left kept held
  have listed : partition ∈ (store.repacked selected).flatMap EraseBlock.partitions :=
    List.mem_flatMap.mpr ⟨left, kept, held⟩
  rcases (store.mem_repacked selected partition).mp listed with elsewhere | ⟨_, has⟩
  · have apart := (List.nodup_append'.mp (represented.selected_once selects)).2.2
    exact apart elsewhere (List.mem_flatMap.mpr ⟨block, chosen, inside⟩)
  · simp [empty] at has

/-- Sorted blocks without a common partition go by their first partition. -/
theorem replaced_ordered (store : GroupedStore τ) (positions : List Nat) (bins : List Bin)
    (once : ((store.replaced positions bins).flatMap EraseBlock.partitions).Nodup) :
    (store.replaced positions bins).Pairwise fun left right =>
      ∀ first ∈ left.partitions.head?, ∀ second ∈ right.partitions.head?, first < second := by
  have sorted : (store.replaced positions bins).Pairwise fun left right => firstBefore left right :=
    List.pairwise_mergeSort firstBefore_trans firstBefore_total _
  apply (sorted.and (List.nodup_flatMap.mp once).2).imp
  intro left right ⟨before, disjoint⟩ first isFirst second isSecond
  have different : first ≠ second := by
    rintro rfl
    exact disjoint (List.mem_of_mem_head? isFirst) (List.mem_of_mem_head? isSecond)
  simp only [firstBefore, Option.mem_def.mp isFirst, Option.mem_def.mp isSecond,
    decide_eq_true_eq] at before
  omega

/-- The blocks after a pass share out the partitions again. -/
theorem Represented.layout_repacked (represented : store.Represented)
    (selects : store.Selects selected) :
    Layout ((store.repacked selected).map EraseBlock.partitions) store.base := by
  have once := represented.repacked_once selects
  constructor
  case once => rwa [← List.flatMap_def]
  case inside =>
    intro partition member
    rw [← List.flatMap_def, mem_repacked] at member
    apply represented.layout.inside
    rw [flatten_lists, selects.mem_blocks]
    exact member.imp_right And.left
  case listed =>
    intro partition some
    have listed := represented.layout.listed partition some
    rw [flatten_lists, selects.mem_blocks] at listed
    rw [← List.flatMap_def, mem_repacked]
    exact listed.imp_right fun member => ⟨member, some⟩
  case nonempty =>
    intro list member
    obtain ⟨block, inside, rfl⟩ := List.mem_map.mp member
    rcases List.mem_append.mp ((store.replaced_perm _ _).mem_iff.mp inside) with old | new
    · apply represented.layout.nonempty
      exact List.mem_map_of_mem (selects.blocks_perm.mem_iff.mpr (List.mem_append_left _ old))
    · obtain ⟨bin, packed, rfl⟩ := List.mem_map.mp new
      exact Bin.pack_nonempty packed
  case ordered =>
    rw [List.pairwise_map]
    exact store.replaced_ordered _ _ once

end

theorem remainingBytes_le {base : PartitionStore} (sound : base.Sound) (partition : Nat) :
    base.remainingBytes partition ≤ base.partitionBytes :=
  Nat.mul_le_mul_right _ (sound.remaining_le partition)

theorem Represented.remainingBytes_le (represented : store.Represented) (partition : Nat) :
    store.base.remainingBytes partition ≤ store.blockCapacity :=
  (GroupedStore.remainingBytes_le represented.base partition).trans represented.room

/-- A block that a pass fills holds what remains in its partitions, and nothing stale. -/
theorem Represented.accounted_fresh (represented : store.Represented) {selected : List EraseBlock}
    {block : EraseBlock} (member : block ∈ store.freshBlocks (store.repack selected)) :
    Accounted block store.base store.blockCapacity ∧ block.stale = 0 := by
  obtain ⟨bin, packed, rfl⟩ := List.mem_map.mp member
  refine ⟨⟨rfl, Bin.pack_size packed, Nat.dvd_zero _, ?_⟩, rfl⟩
  exact Bin.pack_size_le (fun partition _ => represented.remainingBytes_le partition) packed

theorem Represented.reclaimed_bytes (represented : store.Represented)
    {selected : List (EraseBlock × Nat)} (selects : store.Selects selected) :
    store.staleEntriesOf (selected.map Prod.fst) * store.base.recordSize =
      ((selected.map Prod.fst).map EraseBlock.stale).sum := by
  have mem : ∀ block ∈ selected.map Prod.fst, block ∈ store.blocks := by
    intro block member
    obtain ⟨pair, inside, rfl⟩ := List.mem_map.mp member
    exact List.mem_of_getElem? (selects.mem pair inside)
  generalize selected.map Prod.fst = blocks at mem
  induction blocks with
  | nil => exact Nat.zero_mul _
  | cons block rest ih =>
      have whole := Nat.div_mul_cancel (represented.accounted block (mem block (by simp))).stale_dvd
      have rest := ih fun other inside => mem other (by simp [inside])
      rw [staleEntriesOf, total_eq_sum] at rest ⊢
      rw [List.map_cons, List.sum_cons, List.map_cons, List.sum_cons, Nat.add_mul, whole, rest]

theorem Represented.stale_split (represented : store.Represented)
    {selected : List (EraseBlock × Nat)} (selects : store.Selects selected) :
    store.staleEntries * store.base.recordSize =
      ((store.keptBlocks (selected.map Prod.snd)).map EraseBlock.stale).sum +
        store.staleEntriesOf (selected.map Prod.fst) * store.base.recordSize := by
  rw [represented.stale_eq, represented.reclaimed_bytes selects,
    (selects.blocks_perm.map EraseBlock.stale).sum_eq, List.map_append, List.sum_append]

/-- A pass reclaims no more stale entries than there are. -/
theorem Represented.reclaimed_le (represented : store.Represented)
    {selected : List (EraseBlock × Nat)} (selects : store.Selects selected) :
    store.staleEntriesOf (selected.map Prod.fst) ≤ store.staleEntries := by
  have split := represented.stale_split selects
  exact Nat.le_of_mul_le_mul_right (by omega) represented.base.recordSize_pos

/-- The store after a pass over selected blocks. -/
def reorganized (store : GroupedStore τ) (selected : List (EraseBlock × Nat)) (bins : List Bin) :
    GroupedStore τ :=
  let blocks := store.replaced (selected.map Prod.snd) bins
  { store with
    blocks
    holder := holders blocks store.base.partitions.size
    passes := store.passes + 1
    staleEntries := store.staleEntries - store.staleEntriesOf (selected.map Prod.fst) }

theorem Represented.reorganized (represented : store.Represented)
    {selected : List (EraseBlock × Nat)} (selects : store.Selects selected) :
    (store.reorganized selected (store.repack (selected.map Prod.fst))).Represented := by
  have after := store.replaced_perm (selected.map Prod.snd) (store.repack (selected.map Prod.fst))
  have before := selects.blocks_perm
  refine ⟨represented.base, represented.layout_repacked selects, rfl, ?_, ?_, represented.room⟩
  · intro block member
    rcases List.mem_append.mp (after.mem_iff.mp member) with old | new
    · exact represented.accounted block (before.mem_iff.mpr (List.mem_append_left _ old))
    · exact (represented.accounted_fresh new).1
  · have split := represented.stale_split selects
    have fresh : ((store.freshBlocks (store.repack (selected.map Prod.fst))).map
        EraseBlock.stale).sum = 0 := by
      apply List.sum_eq_zero
      intro stale member
      obtain ⟨block, new, rfl⟩ := List.mem_map.mp member
      exact (represented.accounted_fresh new).2
    simp only [GroupedStore.reorganized]
    rw [(after.map EraseBlock.stale).sum_eq, List.map_append, List.sum_append, fresh, Nat.sub_mul,
      split]
    omega

/-! What a pass takes -/

variable [Scalar τ]

theorem candidates_subperm (store : GroupedStore τ) :
    store.candidates.Subperm store.blocks.zipIdx :=
  (List.mergeSort_perm _ _).subperm.trans (List.filter_sublist).subperm

/-- The blocks that a pass would take. -/
def selection (store : GroupedStore τ) : List (EraseBlock × Nat) :=
  store.candidates.take store.policy.maxBlocks

theorem selects_selection (store : GroupedStore τ) : store.Selects store.selection := by
  have part : store.selection.Subperm store.blocks.zipIdx :=
    (List.take_sublist _ _).subperm.trans store.candidates_subperm
  constructor
  · intro pair member
    exact List.mem_zipIdx_iff_getElem?.mp (part.subset member)
  · obtain ⟨middle, same, within⟩ := part
    apply ((same.map Prod.snd).nodup_iff).mp
    apply (within.map Prod.snd).nodup
    rw [List.zipIdx_map_snd]
    exact List.nodup_range'

theorem plan?_eq (store : GroupedStore τ) :
    store.plan? =
      if store.candidates.length < store.policy.triggerBlocks then none
      else if (store.repack (store.selection.map Prod.fst)).length < store.selection.length then
        some (store.selection, store.repack (store.selection.map Prod.fst))
      else none := rfl

/-- The blocks that a pass takes are blocks of the store, and it repacks just these. -/
theorem selects_of_plan? {selected : List (EraseBlock × Nat)} {bins : List Bin}
    (planned : store.plan? = some (selected, bins)) :
    store.Selects selected ∧ bins = store.repack (selected.map Prod.fst) := by
  rw [plan?_eq] at planned
  split at planned
  · contradiction
  · split at planned
    · obtain ⟨rfl, rfl⟩ := Prod.mk.inj (Option.some.inj planned)
      exact ⟨store.selects_selection, rfl⟩
    · contradiction

/-- The store after a pass, if there is need of one. -/
def passed (store : GroupedStore τ) : GroupedStore τ :=
  match store.plan? with
  | none => store
  | some (selected, bins) => store.reorganized selected bins

theorem Represented.passed (represented : store.Represented) : store.passed.Represented := by
  unfold GroupedStore.passed
  cases planned : store.plan? with
  | none => exact represented
  | some plan =>
      obtain ⟨selected, bins⟩ := plan
      obtain ⟨selects, rfl⟩ := selects_of_plan? planned
      exact represented.reorganized selects

/-! New blocks -/

theorem flatten_neighbours (perBlock count blocks : Nat) :
    (List.range blocks).flatMap (fun position =>
      List.range' (position * perBlock) (min perBlock (count - position * perBlock))) =
      List.range (min (blocks * perBlock) count) := by
  induction blocks with
  | zero => simp
  | succ blocks ih =>
      rw [List.range_succ, List.flatMap_append, ih, List.flatMap_singleton, List.range_eq_range',
        List.range_eq_range', Nat.succ_mul]
      by_cases more : blocks * perBlock ≤ count
      · rw [Nat.min_eq_left more]
        have next : List.range' 0 (blocks * perBlock) ++
            List.range' (0 + blocks * perBlock) (min perBlock (count - blocks * perBlock)) =
            List.range' 0 (blocks * perBlock + min perBlock (count - blocks * perBlock)) :=
          List.range'_append_1
        rw [Nat.zero_add] at next
        rw [next]
        congr 1
        omega
      · rw [show count - blocks * perBlock = 0 by omega, Nat.min_zero, List.range'_zero,
          List.append_nil]
        congr 1
        omega

theorem lists_group (base : PartitionStore) (perBlock capacity : Nat) :
    (group base perBlock capacity).map EraseBlock.partitions =
      (List.range (unitsFor base.partitions.size perBlock)).map fun position =>
        List.range' (position * perBlock)
          (min perBlock (base.partitions.size - position * perBlock)) := by
  simp [group, EraseBlock.create]

theorem group_layout (base : PartitionStore) {perBlock : Nat} (positive : 0 < perBlock)
    (capacity : Nat) : Layout ((group base perBlock capacity).map EraseBlock.partitions) base := by
  have covered := le_unitsFor_mul base.partitions.size positive
  have all : ((group base perBlock capacity).map EraseBlock.partitions).flatten =
      List.range base.partitions.size := by
    rw [lists_group, ← List.flatMap_def, flatten_neighbours, Nat.min_eq_right covered]
  refine ⟨?_, ?_, ?_, ?_, ?_⟩
  · rw [all]
    exact List.nodup_range
  · intro partition member
    rw [all] at member
    exact List.mem_range.mp member
  · intro partition some
    rw [all]
    exact List.mem_range.mpr (PartitionStore.lt_size_of_remaining some)
  · intro list member
    rw [lists_group] at member
    obtain ⟨position, before, rfl⟩ := List.mem_map.mp member
    have starts : position * perBlock < base.partitions.size :=
      (lt_unitsFor_iff positive).mp (List.mem_range.mp before)
    rw [ne_eq, List.range'_eq_nil_iff]
    omega
  · rw [lists_group, List.pairwise_map]
    apply List.pairwise_lt_range.imp
    intro left right before first isFirst second isSecond
    simp only [List.head?_range', Option.mem_def, Option.ite_none_left_eq_some] at isFirst isSecond
    rw [← Option.some.inj isFirst.2, ← Option.some.inj isSecond.2]
    exact Nat.mul_lt_mul_of_pos_right before positive

theorem group_accounted {base : PartitionStore} (sound : base.Sound) {perBlock : Nat}
    {block : EraseBlock} (member : block ∈ group base perBlock (perBlock * base.partitionBytes)) :
    Accounted block base (perBlock * base.partitionBytes) ∧ block.stale = 0 := by
  obtain ⟨position, _, rfl⟩ := List.mem_map.mp member
  refine ⟨⟨rfl, rfl, Nat.dvd_zero _, ?_⟩, rfl⟩
  let partitions := List.range' (position * perBlock)
    (min perBlock (base.partitions.size - position * perBlock))
  have each : ∀ bytes ∈ partitions.map base.remainingBytes, bytes ≤ base.partitionBytes := by
    intro bytes inside
    obtain ⟨partition, _, rfl⟩ := List.mem_map.mp inside
    exact remainingBytes_le sound partition
  calc (partitions.map base.remainingBytes).sum
    _ ≤ (partitions.map base.remainingBytes).length * base.partitionBytes :=
        List.sum_le_card_nsmul _ _ each
    _ ≤ perBlock * base.partitionBytes := by
        apply Nat.mul_le_mul_right
        simp only [partitions, List.length_map, List.length_range']
        omega

/-- Blocks are represented from the start, however many entries remain by then. -/
theorem create_represented {base : PartitionStore} (sound : base.Sound) {blockSize : Nat}
    {policy : ReorganizationPolicy τ} {created : GroupedStore τ}
    (built : GroupedStore.create base blockSize policy = .ok created) :
    created.Represented ∧ created.base = base := by
  have positive : 0 < partitionsPerBlock base blockSize := by
    unfold partitionsPerBlock
    split <;> omega
  obtain ⟨_, _, grouped⟩ := Except.exists_of_bind built
  cases grouped
  refine ⟨⟨sound, group_layout base positive _, rfl,
    fun block member => (group_accounted sound member).1, ?_, ?_⟩, rfl⟩
  · rw [Nat.zero_mul]
    symm
    apply List.sum_eq_zero
    intro stale member
    obtain ⟨block, inside, rfl⟩ := List.mem_map.mp member
    exact (group_accounted sound inside).2
  · exact Nat.le_mul_of_pos_left _ positive

end GroupedStore

end MergeCost
