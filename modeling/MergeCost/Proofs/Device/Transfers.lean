import MergeCost.Proofs.Device.Erasing
import MergeCost.Proofs.Device.Wear

/-!
What transfers leave behind. Neither the device nor the counts of bytes and operations depend on
their order; only times do. Reads leave the device alone, so that further reads among other
transfers change nothing but the account of the reads themselves.
-/

namespace MergeCost

variable {τ : Type} [Scalar τ]

/-! The order of transfers -/

/-- Dirty pages are a sum up to whole blocks, so that it does not matter which come first. -/
theorem Ssd.serve_comm (drive : Ssd τ) (first second : Transfer) :
    (drive.serve first).serve second = (drive.serve second).serve first := by
  obtain ⟨kind, bytes⟩ := first
  obtain ⟨other, more⟩ := second
  simp only [serve_eq, pages]
  cases kind <;> cases other <;>
    simp only [if_true, reduceCtorEq, if_false, Nat.mod_add_mod, Nat.add_right_comm]

theorem Pcm.write_comm (memory : Pcm τ) (first second : Nat) :
    ((memory.write first).2.write second).2 = ((memory.write second).2.write first).2 := by
  simp only [write, Nat.add_right_comm]

namespace Device

theorem transfer_ssd (drive : Ssd τ) {transfer : Transfer} (some : transfer.bytes ≠ 0) :
    (Device.ssd drive).transfer transfer = .ssd (drive.serve transfer) := by
  obtain ⟨kind, bytes⟩ := transfer
  rw [Device.transfer, if_neg some]
  cases kind <;> rfl

theorem transfer_comm (device : Device τ) (first second : Transfer) :
    (device.transfer first).transfer second = (device.transfer second).transfer first := by
  by_cases nothing : first.bytes = 0
  · simp only [Device.transfer, if_pos nothing]
  by_cases nothingMore : second.bytes = 0
  · simp only [Device.transfer, if_pos nothingMore]
  cases device with
  | ssd drive =>
      simp only [transfer_ssd _ nothing, transfer_ssd _ nothingMore, drive.serve_comm first second]
  | pcm memory =>
      obtain ⟨kind, bytes⟩ := first
      obtain ⟨other, more⟩ := second
      simp only [Device.transfer, if_neg nothing, if_neg nothingMore]
      cases kind <;> cases other <;> first | rfl | exact congrArg pcm (memory.write_comm bytes more)

theorem transferAll_perm (device : Device τ) {first second : List Transfer}
    (same : first.Perm second) : device.transferAll first = device.transferAll second := by
  have comm : RightCommutative (Device.transfer (τ := τ)) := ⟨transfer_comm⟩
  exact same.foldl_eq device

end Device

/-! Counts -/

namespace Transfer

/-- The bytes of all transfers of a kind. -/
def bytesOf (transfers : List Transfer) (kind : Access) : Nat :=
  total ((transfers.filter (·.kind = kind)).map bytes)

/-- The number of transfers of a kind that the ledgers notice. -/
def operationsOf (transfers : List Transfer) (kind : Access) : Nat :=
  transfers.countP fun transfer => transfer.kind = kind ∧ transfer.bytes ≠ 0

theorem bytesOf_cons (first : Transfer) (rest : List Transfer) (kind : Access) :
    bytesOf (first :: rest) kind =
      (if first.kind = kind then first.bytes else 0) + bytesOf rest kind := by
  by_cases same : first.kind = kind <;> simp [bytesOf, same]

theorem operationsOf_cons (first : Transfer) (rest : List Transfer) (kind : Access) :
    operationsOf (first :: rest) kind =
      (if first.kind = kind ∧ first.bytes ≠ 0 then 1 else 0) + operationsOf rest kind := by
  rw [operationsOf, List.countP_cons, Nat.add_comm]
  simp only [decide_eq_true_eq]
  rfl

variable {first second : List Transfer}

theorem bytes_le_bytesOf {transfer : Transfer} (member : transfer ∈ first) :
    transfer.bytes ≤ bytesOf first transfer.kind := by
  rw [bytesOf, total_eq_sum]
  refine List.le_sum_of_mem (List.mem_map_of_mem (List.mem_filter.mpr ⟨member, ?_⟩))
  exact decide_eq_true rfl

theorem bytesOf_perm (same : first.Perm second) (kind : Access) :
    bytesOf first kind = bytesOf second kind :=
  ((same.filter _).map bytes).sum_eq

theorem operationsOf_perm (same : first.Perm second) (kind : Access) :
    operationsOf first kind = operationsOf second kind :=
  same.countP_eq _

end Transfer

namespace Disk

theorem counts_transfer (disk : Disk τ) (transfer : Transfer) (kind : Access) :
    ((disk.transfer transfer).total.traffic kind).bytes =
        (disk.total.traffic kind).bytes + (if transfer.kind = kind then transfer.bytes else 0) ∧
      ((disk.transfer transfer).total.traffic kind).operations =
        (disk.total.traffic kind).operations +
          if transfer.kind = kind ∧ transfer.bytes ≠ 0 then 1 else 0 := by
  obtain ⟨access, bytes⟩ := transfer
  by_cases none : bytes = 0
  · subst none
    simp [Disk.transfer]
  · rw [Disk.transfer, access_some disk access none]
    by_cases same : access = kind
    · subst same
      simp only [AccessLedger.traffic_record, if_true, true_and, if_pos none]
      exact ⟨rfl, rfl⟩
    · simp only [AccessLedger.traffic_record_of_ne _ (Ne.symm same), same, false_and,
        if_false]
      exact ⟨rfl, rfl⟩

theorem counts_transferAll (disk : Disk τ) (transfers : List Transfer) (kind : Access) :
    ((disk.transferAll transfers).total.traffic kind).bytes =
        (disk.total.traffic kind).bytes + Transfer.bytesOf transfers kind ∧
      ((disk.transferAll transfers).total.traffic kind).operations =
        (disk.total.traffic kind).operations + Transfer.operationsOf transfers kind := by
  induction transfers generalizing disk with
  | nil => exact ⟨rfl, rfl⟩
  | cons transfer rest ih =>
      obtain ⟨bytes, operations⟩ := ih (disk.transfer transfer)
      obtain ⟨firstBytes, firstOperations⟩ := disk.counts_transfer transfer kind
      rw [firstBytes, Nat.add_assoc, ← Transfer.bytesOf_cons] at bytes
      rw [firstOperations, Nat.add_assoc, ← Transfer.operationsOf_cons] at operations
      exact ⟨bytes, operations⟩

/-- Disks with the same device and the same counts; times apart, they do not differ. -/
structure Agrees (first second : Disk τ) : Prop where
  device_eq : first.device = second.device
  bytes_eq : ∀ kind, (first.total.traffic kind).bytes = (second.total.traffic kind).bytes
  operations_eq : ∀ kind,
    (first.total.traffic kind).operations = (second.total.traffic kind).operations

omit [Scalar τ] in
theorem Agrees.fits_iff {first second : Disk τ} (agrees : first.Agrees second) :
    first.Fits ↔ second.Fits := by
  simp only [Disk.Fits, AccessLedger.fits_iff, agrees.device_eq, agrees.bytes_eq,
    agrees.operations_eq]

/-- Transfers come to the same in every order, but for their times. -/
theorem transferAll_perm (disk : Disk τ) {first second : List Transfer}
    (same : first.Perm second) :
    (disk.transferAll first).Agrees (disk.transferAll second) where
  device_eq := by
    rw [device_transferAll, device_transferAll, disk.device.transferAll_perm same]
  bytes_eq kind := by
    rw [(disk.counts_transferAll first kind).1, (disk.counts_transferAll second kind).1,
      Transfer.bytesOf_perm same]
  operations_eq kind := by
    rw [(disk.counts_transferAll first kind).2, (disk.counts_transferAll second kind).2,
      Transfer.operationsOf_perm same]

end Disk

/-! Reads -/

namespace Transfer

/-- The transfers that are not reads. -/
def changes (transfers : List Transfer) : List Transfer := transfers.filter (·.kind ≠ .read)

theorem changes_append (first second : List Transfer) :
    changes (first ++ second) = changes first ++ changes second :=
  List.filter_append _ _

/-- More transfers than some that are given, all of the further ones reads. -/
structure AddsReads (plain more : List Transfer) : Prop where
  sublist : plain.Sublist more
  changes_eq : changes more = changes plain

namespace AddsReads

variable {plain more first second : List Transfer}

theorem nothing (plain : List Transfer) : AddsReads plain plain := ⟨.refl _, rfl⟩

theorem of_reads (sublist : plain.Sublist more) (reads : ∀ transfer ∈ more, transfer.kind = .read) :
    AddsReads plain more := by
  have none {transfers : List Transfer} (reads : ∀ transfer ∈ transfers, transfer.kind = .read) :
      changes transfers = [] := by
    rw [changes, List.filter_eq_nil_iff]
    intro transfer member
    simp [reads transfer member]
  refine ⟨sublist, ?_⟩
  rw [none reads, none fun transfer member => reads transfer (sublist.subset member)]

theorem append (earlier : AddsReads plain more) (later : AddsReads first second) :
    AddsReads (plain ++ first) (more ++ second) := by
  refine ⟨earlier.sublist.append later.sublist, ?_⟩
  rw [changes_append, changes_append, earlier.changes_eq, later.changes_eq]

end AddsReads

end Transfer

theorem Device.transfer_read (device : Device τ) (bytes : Nat) :
    device.transfer ⟨.read, bytes⟩ = device := by
  rw [Device.transfer]
  split
  · rfl
  · exact device.access_read bytes

theorem Device.transferAll_reads (device : Device τ) {transfers : List Transfer}
    (reads : ∀ transfer ∈ transfers, transfer.kind = .read) :
    device.transferAll transfers = device := by
  induction transfers with
  | nil => rfl
  | cons first rest ih =>
      obtain ⟨kind, bytes⟩ := first
      obtain rfl : kind = .read := reads _ List.mem_cons_self
      rw [transferAll, List.foldl_cons, device.transfer_read]
      exact ih fun transfer later => reads transfer (List.mem_cons_of_mem _ later)

namespace Disk

/-- Disks that differ in nothing but the account of reads. -/
structure ChangedAlike (first second : Disk τ) : Prop where
  device_eq : first.device = second.device
  traffic_eq : ∀ kind, kind ≠ .read → first.total.traffic kind = second.total.traffic kind

namespace ChangedAlike

variable {first second third : Disk τ}

omit [Scalar τ] in
theorem trans (start : first.ChangedAlike second) (rest : second.ChangedAlike third) :
    first.ChangedAlike third :=
  ⟨start.device_eq.trans rest.device_eq,
    fun kind change => (start.traffic_eq kind change).trans (rest.traffic_eq kind change)⟩

omit [Scalar τ] in
theorem symm (alike : first.ChangedAlike second) : second.ChangedAlike first :=
  ⟨alike.device_eq.symm, fun kind change => (alike.traffic_eq kind change).symm⟩

theorem transfer (alike : first.ChangedAlike second) (transfer : Transfer) :
    (first.transfer transfer).ChangedAlike (second.transfer transfer) := by
  obtain ⟨kind, bytes⟩ := transfer
  by_cases none : bytes = 0
  · subst none
    exact alike
  · rw [Disk.transfer, Disk.transfer, access_some first kind none, access_some second kind none,
      alike.device_eq]
    refine ⟨rfl, fun other change => ?_⟩
    by_cases same : other = kind
    · subst same
      simp only [AccessLedger.traffic_record, alike.traffic_eq other change]
    · simp only [AccessLedger.traffic_record_of_ne _ same, alike.traffic_eq other change]

theorem read (alike : first.ChangedAlike second) (bytes : Nat) :
    (first.transfer ⟨.read, bytes⟩).ChangedAlike second := by
  refine ⟨(device_read first bytes).trans alike.device_eq, fun kind change => ?_⟩
  refine .trans ?_ (alike.traffic_eq kind change)
  by_cases none : bytes = 0
  · subst none
    rfl
  · rw [Disk.transfer, access_some first .read none]
    exact AccessLedger.traffic_record_of_ne _ change ..

/-- Reads drop out of what has been transferred. -/
theorem transferAll (alike : first.ChangedAlike second) (transfers : List Transfer) :
    (first.transferAll transfers).ChangedAlike
      (second.transferAll (Transfer.changes transfers)) := by
  induction transfers generalizing first second with
  | nil => exact alike
  | cons next rest ih =>
      by_cases reads : next.kind = .read
      · have dropped : Transfer.changes (next :: rest) = Transfer.changes rest :=
          List.filter_cons_of_neg (by simp [reads])
        obtain ⟨kind, bytes⟩ := next
        obtain rfl : kind = .read := reads
        rw [dropped]
        exact ih (alike.read bytes)
      · have kept : Transfer.changes (next :: rest) = next :: Transfer.changes rest :=
          List.filter_cons_of_pos (by simp [reads])
        rw [kept]
        exact ih (alike.transfer next)

end ChangedAlike

/-- Further reads leave the device and the account of all changes as they are. -/
theorem transferAll_alike (disk : Disk τ) {plain more : List Transfer}
    (adds : Transfer.AddsReads plain more) :
    (disk.transferAll more).ChangedAlike (disk.transferAll plain) := by
  have start : disk.ChangedAlike disk := ⟨rfl, fun _ _ => rfl⟩
  have first := start.transferAll more
  have second := start.transferAll plain
  rw [adds.changes_eq] at first
  exact first.trans second.symm

end Disk

/-! Drives under the transfers of a disk -/

namespace Ssd.Ready

variable {profile : Profile τ} {drive : Ssd τ}

/-- What a disk holds back, transfers of no bytes, would not have changed its drive. -/
theorem transfer (ready : Ready profile drive) (transfer : Transfer) :
    (Device.ssd drive).transfer transfer = .ssd (drive.serve transfer) := by
  obtain ⟨kind, bytes⟩ := transfer
  by_cases none : bytes = 0
  · subst none
    rw [ready.serve_nothing]
    rfl
  · exact Device.transfer_ssd drive none

theorem transferAll (ready : Ready profile drive) (transfers : List Transfer) :
    (Device.ssd drive).transferAll transfers = .ssd (drive.run transfers) ∧
      Ready profile (drive.run transfers) := by
  induction transfers generalizing drive with
  | nil => exact ⟨rfl, ready⟩
  | cons first rest ih =>
      rw [Device.transferAll, List.foldl_cons, ready.transfer]
      exact ih (ready.serve first)

theorem disk_run (ready : Ready profile drive) (requests : List Disk.Request) :
    ∃ reached, ((Disk.create (.ssd drive)).run requests).device = .ssd reached ∧
      Ready profile reached := by
  induction requests using List.reverseRecOn with
  | nil => exact ⟨drive, rfl, ready⟩
  | append_singleton earlier last ih =>
      obtain ⟨reached, there, still⟩ := ih
      rw [Disk.run_concat]
      cases last with
      | access kind bytes =>
          refine ⟨reached.serve ⟨kind, bytes⟩, ?_, still.serve _⟩
          exact (Disk.device_transfer _ ⟨kind, bytes⟩).trans (there ▸ still.transfer _)
      | reset => exact ⟨reached, there, still⟩

/-- Overwrites of a block at most, among reads, each erase one block and wear out one at most. -/
theorem run_le (valid : profile.validate = .ok ()) {transfers : List Transfer}
    (within : ∀ transfer ∈ transfers, transfer.kind = .read ∨
      transfer.kind = .overwrite ∧ transfer.bytes ≤ profile.blockSize)
    (ready : Ready profile drive) :
    let overwrites := transfers.countP (·.kind = .overwrite)
    drive.erasesOver transfers ≤ overwrites ∧
      (drive.run transfers).wear ≤ drive.wear + overwrites * profile.blockSize := by
  induction transfers generalizing drive with
  | nil => exact ⟨Nat.le_refl _, Nat.le_add_right _ _⟩
  | cons first rest ih =>
      obtain ⟨erases, wear⟩ :=
        ih (fun transfer later => within transfer (List.mem_cons_of_mem _ later))
          (ready.serve first)
      obtain ⟨kind, bytes⟩ := first
      rw [erasesOver, List.countP_cons]
      rcases within _ List.mem_cons_self with reads | ⟨overwrites, fits⟩
      · obtain rfl : kind = .read := reads
        exact ⟨(Nat.zero_add _).le.trans erases, wear⟩
      · obtain rfl : kind = .overwrite := overwrites
        have erased : drive.erases bytes ≤ 1 := ready.erases_le_one valid fits
        have worn : (drive.serve ⟨.overwrite, bytes⟩).wear ≤ drive.wear + profile.blockSize :=
          ready.wear_overwrite_le valid fits
        have onward : drive.run (⟨.overwrite, bytes⟩ :: rest) =
            (drive.serve ⟨.overwrite, bytes⟩).run rest := rfl
        simp only [onward, if_true, decide_true, Nat.succ_mul]
        omega

end Ssd.Ready

end MergeCost
