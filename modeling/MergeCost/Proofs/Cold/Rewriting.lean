import MergeCost.Proofs.Cold.Reachable
import MergeCost.Proofs.Cold.Transfers
import MergeCost.Proofs.Device.Transfers

/-!
Partitions that are invalidated block by block on a flash drive. A touch replaces the first block of
each located partition by one without its entries; since at least one entry leaves, that is less
than a block, and no drive with less than a block of dirty pages erases twice for it.
-/

namespace MergeCost

open Sim

variable {τ : Type}

namespace PartitionStore

variable {store : PartitionStore} {located : List Located} {part : Located}

/-- Something leaves the block, so that it is not written as a whole again. -/
theorem Allots.rewrittenBytes_lt (allots : store.Allots located) (recordSize : 0 < store.recordSize)
    (listed : part ∈ located) {blockSize : Nat} (positive : 0 < blockSize) :
    store.rewrittenBytes blockSize part < blockSize := by
  have leaves := Nat.mul_pos (allots.available part listed).1 recordSize
  simp only [rewrittenBytes, if_neg positive.ne']
  omega

/-- The transfers of a touch that rewrites blocks. -/
def rewriting (store : PartitionStore) (blockSize : Nat) (located : List Located) :
    List Transfer :=
  located.flatMap fun part =>
    [⟨.overwrite, store.rewrittenBytes blockSize part⟩,
      ⟨.read, store.remainingBytes part.partition⟩]

theorem inTurn_touching (rewrites : store.invalidation = .blockRewrite)
    (distinct : (located.map Located.partition).Nodup) (blockSize : Nat) :
    inTurn (touching blockSize) store located = store.rewriting blockSize located := by
  rw [inTurn_eq_flatMap (separable_touching blockSize) store distinct]
  apply List.flatMap_congr
  intro part _
  simp only [touching, invalidating, rewrites, loading, List.cons_append, List.nil_append]

theorem countP_rewriting (store : PartitionStore) (blockSize : Nat) (located : List Located) :
    (store.rewriting blockSize located).countP (·.kind = .overwrite) = located.length := by
  induction located with
  | nil => rfl
  | cons part rest ih =>
      rw [rewriting, List.flatMap_cons, List.countP_append, List.length_cons, Nat.add_comm]
      exact congrArg (· + 1) ih

theorem Allots.rewriting_within (allots : store.Allots located) (recordSize : 0 < store.recordSize)
    {blockSize : Nat} (positive : 0 < blockSize) :
    ∀ transfer ∈ store.rewriting blockSize located, transfer.kind = .read ∨
      transfer.kind = .overwrite ∧ transfer.bytes ≤ blockSize := by
  intro transfer member
  obtain ⟨part, listed, made⟩ := List.mem_flatMap.mp member
  rcases List.mem_pair.mp made with rfl | rfl
  · exact .inr ⟨rfl, (allots.rewrittenBytes_lt recordSize listed positive).le⟩
  · exact .inl rfl

end PartitionStore

variable [Scalar τ]

/-- An overwrite of less than a block: it is charged at most one erase and wears out a block at
most. -/
structure Ssd.Rewrites (drive : Ssd τ) (blockSize bytes : Nat) : Prop where
  bytes_lt : bytes < blockSize
  erases_le : drive.erases bytes ≤ 1
  time_eq : (drive.overwrite bytes).1 = drive.overwriteTime bytes (drive.erases bytes)
  wear_le : (drive.overwrite bytes).2.wear ≤ drive.wear + blockSize

theorem Ssd.Ready.rewrites {profile : Ssd.Profile τ} {drive : Ssd τ} {bytes : Nat}
    (ready : drive.Ready profile) (valid : profile.validate = .ok ())
    (less : bytes < profile.blockSize) : drive.Rewrites profile.blockSize bytes where
  bytes_lt := less
  erases_le := ready.erases_le_one valid less.le
  time_eq := by rw [Ssd.overwrite_eq]
  wear_le := ready.wear_overwrite_le valid less.le

namespace PartitionStore

/-- A touch that rewrites blocks makes one overwrite for each located partition, of less than a
block, and reads the partition. Whatever the drive has been through, each of these overwrites wears
out a block at most and is charged one erase at most; so a touch of some partitions wears out as
many blocks at most, and erases as many at most. -/
theorem touch_rewrites_blocks {profile : Ssd.Profile τ} {fresh : Ssd τ}
    (created : Ssd.create profile = .ok fresh) (requests : List Disk.Request)
    {store : PartitionStore} (reachable : (ColdTier.plain store : ColdTier τ).Reachable)
    (rewrites : store.invalidation = .blockRewrite) (lookup : Lookup) (entries : Nat)
    {machine : Machine τ} (reached : machine.disk = (Disk.create (.ssd fresh)).run requests) :
    ∃ drive located moved left cost after,
      machine.disk.device = .ssd drive ∧
      outcome (ColdTier.locate lookup entries) ⟨.plain store, machine⟩ =
        .ok (.ok located, ⟨.plain moved, machine⟩) ∧
      outcome (ColdTier.touch located) ⟨.plain moved, machine⟩ =
        .ok (.ok cost, ⟨.plain left, after⟩) ∧
      let calls := moved.rewriting profile.blockSize
      after.disk = machine.disk.transferAll (calls located) ∧
      (∀ earlier part later, located = earlier ++ part :: later → ∃ before,
        (machine.disk.transferAll (calls earlier)).device = .ssd before ∧
          before.Rewrites profile.blockSize (moved.rewrittenBytes profile.blockSize part)) ∧
      (after.disk.total.traffic .overwrite).operations ≤
        (machine.disk.total.traffic .overwrite).operations + located.length ∧
      after.disk.device.wear ≤ drive.wear + located.length * profile.blockSize ∧
      drive.erasesOver (calls located) ≤ located.length := by
  obtain ⟨_, valid, rest⟩ := Except.exists_of_bind created
  cases rest
  have blockSize := (Ssd.Profile.validate_ok valid).2.1
  obtain ⟨drive, there, ready⟩ := (Ssd.Ready.fresh valid).disk_run requests
  rw [← reached] at there
  have sound : store.Sound := reachable.valid
  obtain ⟨located, point, range, found, moves, allots, _⟩ := locate_exists sound lookup entries
  let moved := store.withCursors point range
  have allots : moved.Allots located := ⟨allots.distinct, allots.available⟩
  have onTier : (ColdTier.plain store : ColdTier τ).base.locate lookup entries =
    .ok (located, moved) := found
  have stillRewrites : moved.invalidation = .blockRewrite := rewrites
  have within := allots.rewriting_within moves.recordSize_pos blockSize
  obtain ⟨cost, performs, _⟩ := touch_performs allots.inRange machine.disk.device
  obtain ⟨after, ran, transferred⟩ := performs machine rfl
  have size : machine.disk.device.blockSize = profile.blockSize := by
    rw [there, Device.blockSize, ready.profile_eq]
  rw [size, inTurn_touching stillRewrites allots.distinct] at transferred
  obtain ⟨erases, wear⟩ := ready.run_le valid within
  rw [countP_rewriting] at erases wear
  refine ⟨drive, located, moved, moved.drainAll located, cost, after, there,
    ColdTier.outcome_locate onTier machine, ColdTier.outcome_touch_plain ran, transferred, ?_, ?_,
    ?_, erases⟩
  · intro earlier part later split
    have listed : part ∈ located := by simp [split]
    have less := allots.rewrittenBytes_lt moves.recordSize_pos listed blockSize
    obtain ⟨goes, still⟩ := ready.transferAll (moved.rewriting profile.blockSize earlier)
    have before : (machine.disk.transferAll (moved.rewriting profile.blockSize earlier)).device =
        .ssd (drive.run (moved.rewriting profile.blockSize earlier)) := by
      rw [Disk.device_transferAll, there, goes]
    exact ⟨_, before, still.rewrites valid less⟩
  · rw [transferred, (machine.disk.counts_transferAll _ .overwrite).2]
    apply Nat.add_le_add_left
    rw [← countP_rewriting moved profile.blockSize located]
    apply List.countP_mono_left
    intro transfer _ noticed
    simp only [decide_eq_true_eq] at noticed ⊢
    exact noticed.1
  · rw [transferred, Disk.device_transferAll, there, (ready.transferAll _).1]
    exact wear

/-- Three of ten entries, each from another partition, on a drive with two dirty pages of three. -/
theorem touch_rewrites_blocks_of_three :
    let fresh : Ssd Rat := ⟨⟨"SSD", 4, 12, 1, 2, 1, 1, 3, 9⟩, 0, 0⟩
    let store : PartitionStore := ⟨4, 4, #[⟨4, 4⟩, ⟨4, 4⟩, ⟨2, 2⟩], .blockRewrite, 0, 0⟩
    let machine : Machine Rat := .create ((Disk.create (.ssd fresh)).run [.access .overwrite 5])
    Ssd.create fresh.profile = .ok fresh ∧
    (PartitionStore.create 10 4 16 .blockRewrite : Except (Error Rat) PartitionStore) = .ok store ∧
    machine.disk.device = .ssd ⟨fresh.profile, 2, 8⟩ ∧
    ∃ located moved left cost after,
      outcome (ColdTier.locate .point 3) ⟨.plain store, machine⟩ =
        .ok (.ok located, ⟨.plain moved, machine⟩) ∧
      located = [⟨0, 1⟩, ⟨1, 1⟩, ⟨2, 1⟩] ∧
      outcome (ColdTier.touch located) ⟨.plain moved, machine⟩ =
        .ok (.ok cost, ⟨.plain left, after⟩) ∧
      after.disk = machine.disk.transferAll [⟨.overwrite, 8⟩, ⟨.read, 16⟩, ⟨.overwrite, 8⟩,
        ⟨.read, 16⟩, ⟨.overwrite, 4⟩, ⟨.read, 8⟩] ∧
      after.disk.device.wear ≤ 8 + 3 * 12 := by
  intro fresh store machine
  have created : Ssd.create fresh.profile = .ok fresh := by cbv
  have laidOut : (PartitionStore.create 10 4 16 .blockRewrite :
    Except (Error Rat) PartitionStore) = .ok store := rfl
  have reached : machine.disk = (Disk.create (.ssd fresh)).run [.access .overwrite 5] := rfl
  have dealt : (ColdTier.plain store : ColdTier Rat).base.locate .point 3 =
    .ok ([⟨0, 1⟩, ⟨1, 1⟩, ⟨2, 1⟩], store) := by cbv
  have runs := ColdTier.outcome_locate dealt machine
  obtain ⟨drive, located, moved, left, cost, after, there, found, touched, transferred, _, _, wear,
    _⟩ := touch_rewrites_blocks created [.access .overwrite 5] (.create laidOut) rfl .point 3
      reached
  have worn : machine.disk.device = .ssd ⟨fresh.profile, 2, 8⟩ := by cbv
  rw [runs] at found
  cases found
  rw [worn] at there
  cases there
  exact ⟨created, laidOut, worn, _, _, left, cost, after, runs, rfl, touched, transferred, wear⟩

end PartitionStore

end MergeCost
