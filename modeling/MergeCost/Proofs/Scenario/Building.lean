import MergeCost.Scenario.Basic
import MergeCost.Proofs.Cold.Capacities
import MergeCost.Proofs.Index.History

/-!
Building what a scenario describes. Each part that is built checks its parameters once more; no part
is stricter than the validation of the scenario and none weaker, so that validation alone decides
what can be built.
-/

namespace MergeCost

namespace DeviceProfile

variable {τ : Type} [Scalar τ] {memory : DeviceProfile τ}

/-- The device of a profile before it has been used. -/
def fresh : DeviceProfile τ → Device τ
  | ssd profile => .ssd ⟨profile, 0, 0⟩
  | pcm profile => .pcm ⟨profile, 0⟩

theorem build_eq (memory : DeviceProfile τ) :
    memory.build = memory.validate.map fun _ => memory.fresh := by
  cases memory with
  | ssd profile =>
      simp only [build, validate, Ssd.create]
      cases profile.validate <;> rfl
  | pcm profile =>
      simp only [build, validate, Pcm.create]
      cases profile.validate <;> rfl

theorem pageSize_pos (valid : memory.validate = .ok ()) : 0 < memory.fresh.pageSize := by
  by_contra none
  cases memory with
  | ssd profile =>
      have none : profile.pageSize = 0 := Nat.eq_zero_of_not_pos none
      simp [validate, Ssd.Profile.validate, none] at valid
  | pcm profile =>
      have none : profile.pageSize = 0 := Nat.eq_zero_of_not_pos none
      simp [validate, Pcm.Profile.validate, none] at valid

end DeviceProfile

namespace GroupedStore

variable {τ : Type}

theorem partitionsPerBlock_pos (base : PartitionStore) (blockSize : Nat) :
    0 < partitionsPerBlock base blockSize := by
  unfold partitionsPerBlock
  split <;> omega

theorem create_exists [Scalar τ] {policy : ReorganizationPolicy τ}
    (valid : policy.validate = .ok ()) (base : PartitionStore) (blockSize : Nat) :
    ∃ store, create base blockSize policy = .ok store ∧ store.base = base ∧ store.passes = 0 ∧
      store.staleEntries = 0 := by
  simp only [create, valid]
  exact ⟨_, rfl, rfl, rfl, rfl⟩

end GroupedStore

namespace Scenario

variable {τ : Type} [Scalar τ] {scenario : Scenario τ}

structure Valid (scenario : Scenario τ) : Prop where
  recordSize_pos : 0 < scenario.recordSize
  recordSize_le_node : scenario.recordSize ≤ scenario.nodeSize
  recordSize_le_partition : scenario.recordSize ≤ scenario.effectivePartitionSize
  memory : scenario.memory.validate = .ok ()
  policy : ∀ policy, scenario.reorganization = some policy → policy.validate = .ok ()

theorem validate_ok_iff : scenario.validate = .ok () ↔ scenario.Valid := by
  constructor
  · intro valid
    have recordSize_pos : 0 < scenario.recordSize := by
      by_contra none
      rw [validate, if_pos (Nat.eq_zero_of_not_pos none)] at valid
      contradiction
    have node : scenario.recordSize ≤ scenario.nodeSize := by
      by_contra narrow
      rw [validate, if_neg recordSize_pos.ne', if_pos (Nat.lt_of_not_le narrow)] at valid
      contradiction
    have partition : scenario.recordSize ≤ scenario.effectivePartitionSize := by
      by_contra narrow
      rw [validate, if_neg recordSize_pos.ne', if_neg (Nat.not_lt.mpr node),
        if_pos (Nat.lt_of_not_le narrow)] at valid
      contradiction
    rw [validate, if_neg recordSize_pos.ne', if_neg (Nat.not_lt.mpr node),
      if_neg (Nat.not_lt.mpr partition)] at valid
    obtain ⟨_, memory, rest⟩ := Except.exists_of_bind valid
    refine ⟨recordSize_pos, node, partition, memory, ?_⟩
    intro policy found
    rw [found] at rest
    exact rest
  · rintro ⟨someRecord, node, partition, memory, policy⟩
    simp only [validate, if_neg someRecord.ne', if_neg (Nat.not_lt.mpr node),
      if_neg (Nat.not_lt.mpr partition), memory]
    cases found : scenario.reorganization with
    | none => rfl
    | some chosen => exact policy chosen found

/-- The partition size in entries. -/
def entriesPerPartition (scenario : Scenario τ) : Nat :=
  scenario.effectivePartitionSize / scenario.recordSize

def emptyTree (scenario : Scenario τ) : BTree τ :=
  ⟨scenario.keySize, scenario.dataSize, scenario.nodeSize, 0, .empty⟩

/-- The empty tree on an unused disk. -/
def plant (scenario : Scenario τ) : Index τ :=
  ⟨0, scenario.emptyTree, .create (.create scenario.memory.fresh)⟩

/-- The partitions of a scenario when all entries are still in them. -/
def laidOut (scenario : Scenario τ) (invalidation : Invalidation) : PartitionStore where
  recordSize := scenario.recordSize
  entriesPerPartition := scenario.entriesPerPartition
  partitions := PartitionStore.layOut scenario.startingEntries scenario.entriesPerPartition
  invalidation := invalidation
  pointCursor := 0
  rangeCursor := 0

theorem buildDisk_eq (scenario : Scenario τ) :
    scenario.buildDisk = scenario.memory.validate.map fun _ => .create scenario.memory.fresh := by
  rw [buildDisk, DeviceProfile.build_eq]
  cases scenario.memory.validate <;> rfl

theorem Valid.buildTree_eq (valid : scenario.Valid) : scenario.buildTree = .ok scenario.plant := by
  have someNode : scenario.nodeSize ≠ 0 :=
    (valid.recordSize_pos.trans_le valid.recordSize_le_node).ne'
  have created : BTree.create scenario.keySize scenario.dataSize scenario.nodeSize =
      .ok scenario.emptyTree := by
    have someRecord : scenario.keySize + scenario.dataSize ≠ 0 := valid.recordSize_pos.ne'
    rw [BTree.create, if_neg someRecord, if_neg someNode]
    rfl
  rw [buildTree, validate_ok_iff.mpr valid, buildDisk_eq, valid.memory]
  simp only [Except.map, bind, Except.bind, Index.tree, created]
  rfl

theorem buildTree_invalid {error : Error τ} (invalid : scenario.validate = .error error) :
    scenario.buildTree = .error error := by
  rw [buildTree, invalid]
  rfl

theorem buildMerging_invalid {error : Error τ} (invalid : scenario.validate = .error error)
    (variant : MergingVariant) : scenario.buildMerging variant = .error error := by
  rw [buildMerging, buildTree_invalid invalid]
  rfl

theorem Valid.partitions_eq (valid : scenario.Valid) (invalidation : Invalidation) :
    scenario.plant.partitions scenario.effectivePartitionSize scenario.startingEntries
      invalidation = .ok (scenario.laidOut invalidation) :=
  PartitionStore.create_exists valid.recordSize_pos valid.recordSize_le_partition _ _

/-- Whether a scenario has what a variant needs beyond what is valid. -/
structure Suits (scenario : Scenario τ) (variant : MergingVariant) : Prop where
  policy : variant = .deferred → scenario.reorganization.isSome
  memory : variant = .inPlace → ∃ profile, scenario.memory = .pcm profile

theorem Valid.eager_eq (valid : scenario.Valid) :
    scenario.plant.eager scenario.effectivePartitionSize scenario.startingEntries =
      .ok (scenario.plant.wrap .eager (.plain (scenario.laidOut .blockRewrite))) := by
  rw [Index.eager, valid.partitions_eq]
  rfl

theorem Valid.deferred_exists (valid : scenario.Valid) {policy : ReorganizationPolicy τ}
    (found : scenario.reorganization = some policy) :
    ∃ store, scenario.plant.deferred scenario.effectivePartitionSize scenario.startingEntries
        policy = .ok (scenario.plant.wrap .deferred (.grouped store)) ∧
      store.base = scenario.laidOut .blockRewrite ∧ store.passes = 0 ∧ store.staleEntries = 0 := by
  obtain ⟨store, created, rest⟩ := GroupedStore.create_exists (valid.policy policy found)
    (scenario.laidOut .blockRewrite) scenario.plant.device.blockSize
  refine ⟨store, ?_, rest⟩
  rw [Index.deferred, valid.partitions_eq]
  simp only [bind, Except.bind, created]
  rfl

theorem Valid.inPlace_eq (valid : scenario.Valid) {profile : Pcm.Profile τ}
    (memory : scenario.memory = .pcm profile) :
    scenario.plant.inPlace scenario.effectivePartitionSize scenario.startingEntries =
      .ok (scenario.plant.wrap .inPlace (.plain (scenario.laidOut .inPlace))) := by
  have addressable : scenario.plant.device.isByteAddressable = true := by
    change scenario.memory.fresh.isByteAddressable = true
    rw [memory]
    rfl
  rw [Index.inPlace, if_pos addressable, valid.partitions_eq]
  rfl

theorem inPlace_refused {profile : Ssd.Profile τ} (memory : scenario.memory = .ssd profile) :
    scenario.plant.inPlace scenario.effectivePartitionSize scenario.startingEntries =
      .error (.config (.notByteAddressable profile.name)) := by
  have device : scenario.plant.device = .ssd ⟨profile, 0, 0⟩ := by
    change scenario.memory.fresh = _
    rw [memory]
    rfl
  rw [Index.inPlace, device]
  rfl

theorem Valid.buildMerging_exists (valid : scenario.Valid) {variant : MergingVariant}
    (suits : scenario.Suits variant) :
    ∃ cold invalidation, scenario.buildMerging variant = .ok (scenario.plant.wrap variant cold) ∧
      cold.base = scenario.laidOut invalidation ∧
      (variant = .deferred → ∃ store, cold = .grouped store ∧ store.passes = 0 ∧
        store.staleEntries = 0) := by
  rw [buildMerging, valid.buildTree_eq]
  cases variant with
  | eager => exact ⟨_, _, valid.eager_eq, rfl, nofun⟩
  | inPlace =>
      obtain ⟨profile, memory⟩ := suits.memory rfl
      exact ⟨_, _, valid.inPlace_eq memory, rfl, nofun⟩
  | deferred =>
      obtain ⟨policy, found⟩ := Option.isSome_iff_exists.mp (suits.policy rfl)
      obtain ⟨store, built, base, passes, stale⟩ := valid.deferred_exists found
      refine ⟨.grouped store, _, ?_, base, fun _ => ⟨store, rfl, passes, stale⟩⟩
      rw [← built]
      simp only [bind, Except.bind, found]

theorem Valid.buildMerging_refused (valid : scenario.Valid) {variant : MergingVariant}
    (unfit : ¬scenario.Suits variant) : ∃ error, scenario.buildMerging variant = .error error := by
  rw [buildMerging, valid.buildTree_eq]
  cases variant with
  | eager => exact absurd ⟨nofun, nofun⟩ unfit
  | inPlace =>
      cases memory : scenario.memory with
      | ssd profile => exact ⟨_, inPlace_refused memory⟩
      | pcm profile => exact absurd ⟨nofun, fun _ => ⟨profile, memory⟩⟩ unfit
  | deferred =>
      cases found : scenario.reorganization with
      | none => exact ⟨.config .noReorganization, rfl⟩
      | some policy => exact absurd ⟨fun _ => by rw [found]; rfl, nofun⟩ unfit

/-- An index as it is built from a scenario: all entries are cold, over an empty tree. -/
structure Starts (scenario : Scenario τ) (variant : MergingVariant) (index : Index τ)
    (level : Level τ) : Prop where
  depth_eq : index.depth = 1
  viewed : index.level? = some level
  variant_eq : level.variant = variant
  cold_eq : level.cold.entries = scenario.startingEntries
  hot_eq : level.hot = 0
  partitions_eq : level.cold.base.partitions.size =
    scenario.startingEntries ⌈/⌉ (scenario.effectivePartitionSize / scenario.recordSize)
  capacities_eq :
    (level.cold.base.partitions.toList.map Partition.capacity).sum = scenario.startingEntries
  new : variant = .deferred →
    ∃ store, level.cold = .grouped store ∧ store.passes = 0 ∧ store.staleEntries = 0
  /-- Every partition starts before the last entry ends, so that it is not left with less than
  nothing. -/
  start_lt : ∀ partition < level.cold.base.partitions.size,
    partition * (scenario.effectivePartitionSize / scenario.recordSize) < scenario.startingEntries
  pageSize_pos : 0 < index.device.pageSize
  recordSize_pos : 0 < scenario.recordSize
  perPartition_pos : 0 < scenario.effectivePartitionSize / scenario.recordSize
  partitionBytes_pos : 0 < level.cold.base.partitionBytes
  perBlock_pos : 0 < GroupedStore.partitionsPerBlock level.cold.base index.device.blockSize

theorem Valid.starts (valid : scenario.Valid) {variant : MergingVariant} {cold : ColdTier τ}
    {invalidation : Invalidation} (base : cold.base = scenario.laidOut invalidation)
    (new : variant = .deferred → ∃ store, cold = .grouped store ∧ store.passes = 0 ∧
      store.staleEntries = 0) :
    ∃ level, scenario.Starts variant (scenario.plant.wrap variant cold) level := by
  have positive : 0 < scenario.entriesPerPartition :=
    Nat.div_pos valid.recordSize_le_partition valid.recordSize_pos
  have entries : (scenario.laidOut invalidation).entries = scenario.startingEntries :=
    PartitionStore.entries_layOut positive rfl
  have partitions : (scenario.laidOut invalidation).partitions =
      PartitionStore.layOut scenario.startingEntries scenario.entriesPerPartition := rfl
  have size : (scenario.laidOut invalidation).partitions.size =
      unitsFor scenario.startingEntries scenario.entriesPerPartition := Array.size_ofFn
  rw [← base] at entries partitions size
  refine ⟨_, {
    depth_eq := rfl
    viewed := rfl
    variant_eq := rfl
    cold_eq := entries
    hot_eq := rfl
    partitions_eq := size.trans (unitsFor_eq_ceilDiv ..)
    capacities_eq := (PartitionStore.sum_capacity_layOut partitions).trans entries
    new
    start_lt := fun partition inside => (lt_unitsFor_iff positive).mp (size ▸ inside)
    pageSize_pos := DeviceProfile.pageSize_pos valid.memory
    recordSize_pos := valid.recordSize_pos
    perPartition_pos := positive
    partitionBytes_pos := ?_
    perBlock_pos := GroupedStore.partitionsPerBlock_pos .. }⟩
  · change 0 < cold.base.partitionBytes
    rw [base]
    exact Nat.mul_pos positive valid.recordSize_pos

theorem exists_buildDisk_iff :
    (∃ disk, scenario.buildDisk = .ok disk) ↔ scenario.memory.validate = .ok () := by
  rw [buildDisk_eq]
  cases scenario.memory.validate <;> simp [Except.map]

theorem exists_buildTree_iff :
    (∃ index, scenario.buildTree = .ok index) ↔ scenario.validate = .ok () := by
  cases checked : scenario.validate with
  | error error => simp [buildTree_invalid checked]
  | ok _ => simp [(validate_ok_iff.mp checked).buildTree_eq]

theorem exists_buildMerging_iff {variant : MergingVariant} :
    (∃ index, scenario.buildMerging variant = .ok index) ↔
      scenario.validate = .ok () ∧ scenario.Suits variant := by
  cases checked : scenario.validate with
  | error error => simp [buildMerging_invalid checked]
  | ok _ =>
      have valid := validate_ok_iff.mp checked
      constructor
      · rintro ⟨index, built⟩
        refine ⟨rfl, ?_⟩
        by_contra unfit
        obtain ⟨error, refused⟩ := valid.buildMerging_refused unfit
        rw [built] at refused
        contradiction
      · rintro ⟨_, suits⟩
        obtain ⟨cold, _, built, _⟩ := valid.buildMerging_exists suits
        exact ⟨_, built⟩

theorem starts_of_buildMerging {variant : MergingVariant} {index : Index τ}
    (built : scenario.buildMerging variant = .ok index) :
    ∃ level, scenario.Starts variant index level := by
  obtain ⟨checked, suits⟩ := exists_buildMerging_iff.mp ⟨index, built⟩
  have valid := validate_ok_iff.mp checked
  obtain ⟨cold, invalidation, same, base, new⟩ := valid.buildMerging_exists suits
  rw [built] at same
  cases same
  exact valid.starts base new

/-- Validation decides what can be built. A scenario that is not valid is refused with the first
fault that validation finds; a valid one can be built in every variant that it has the policy and
the device for, and nothing is divided by zero on the way. -/
theorem builds_iff_valid (scenario : Scenario τ) :
    ((∃ disk, scenario.buildDisk = .ok disk) ↔ scenario.memory.validate = .ok ()) ∧
    ((∃ index, scenario.buildTree = .ok index) ↔ scenario.validate = .ok ()) ∧
    (∀ variant, (∃ index, scenario.buildMerging variant = .ok index) ↔
      scenario.validate = .ok () ∧ (variant = .deferred → scenario.reorganization.isSome) ∧
        (variant = .inPlace → ∃ profile, scenario.memory = .pcm profile)) ∧
    (∀ error, scenario.validate = .error error →
      scenario.buildTree = .error error ∧ ∀ variant, scenario.buildMerging variant = .error error) ∧
    (∀ variant index, scenario.buildMerging variant = .ok index →
      ∃ level, scenario.Starts variant index level) := by
  refine ⟨exists_buildDisk_iff, exists_buildTree_iff, fun variant => ?_,
    fun error invalid => ⟨buildTree_invalid invalid, buildMerging_invalid invalid⟩,
    fun variant index => starts_of_buildMerging⟩
  rw [exists_buildMerging_iff]
  constructor
  · rintro ⟨valid, suits⟩
    exact ⟨valid, suits.policy, suits.memory⟩
  · rintro ⟨valid, policy, memory⟩
    exact ⟨valid, policy, memory⟩

end Scenario

end MergeCost
