import MergeCost.Disk
import MergeCost.Proofs.Ledger.Runs
import MergeCost.Proofs.Rounding

/-!
Devices and disks in words. An access in words is the access, unless the disk would have counted
more by then than fits into words. No count besides the wear and the ledger decides this: the dirty
pages of a device are among those that have been worn.
-/

namespace MergeCost

variable {τ : Type}

theorem Ssd.writeInWords_eq [Scalar τ] (drive : Ssd τ) (bytes : Nat) :
    drive.writeInWords bytes =
      if Fits (drive.write bytes).2.wear then .ok (drive.write bytes) else .error .overflow := by
  have worn : drive.writeInWords bytes =
      (Word.hold (drive.wear + drive.pages bytes * drive.profile.pageSize)).map fun wear =>
        (drive.writeTime bytes, { drive with wear }) := by
    rw [← Word.hold_bind_add, writeInWords, Word.mul]
    cases Word.hold (drive.pages bytes * drive.profile.pageSize) with
    | error fault => rfl
    | ok amount => cases Word.add drive.wear amount <;> rfl
  exact worn.trans (Word.map_hold ..)

theorem Ssd.overwriteInWords_eq [Scalar τ] {drive : Ssd τ} (positive : 0 < drive.profile.pageSize)
    (dirty : drive.dirtyPages * drive.profile.pageSize ≤ drive.wear) (bytes : Nat) :
    drive.overwriteInWords bytes =
      if Fits (drive.overwrite bytes).2.wear then .ok (drive.overwrite bytes)
      else .error .overflow := by
  have worn : (drive.overwrite bytes).2.wear = (drive.write bytes).2.wear :=
    wear_eraseFull ..
  rw [overwriteInWords, writeInWords_eq, worn]
  by_cases more : Fits (drive.write bytes).2.wear
  · have pages : drive.dirtyPages + drive.pages bytes ≤ (drive.write bytes).2.wear :=
      calc
        drive.dirtyPages + drive.pages bytes
            ≤ (drive.dirtyPages + drive.pages bytes) * drive.profile.pageSize :=
          Nat.le_mul_of_pos_right _ positive
        _ = drive.dirtyPages * drive.profile.pageSize +
            drive.pages bytes * drive.profile.pageSize := Nat.add_mul ..
        _ ≤ drive.wear + drive.pages bytes * drive.profile.pageSize :=
          Nat.add_le_add_right dirty _
    simp only [if_pos more, Word.add, Word.hold_of_fits (Word.fits_of_le pages more)]
    rfl
  · simp only [if_neg more]
    rfl

theorem Pcm.writeInWords_eq [Scalar τ] (memory : Pcm τ) (bytes : Nat) :
    memory.writeInWords bytes =
      if Fits (memory.write bytes).2.wear then .ok (memory.write bytes) else .error .overflow := by
  let amount := unitsFor bytes memory.profile.pageSize * memory.profile.pageSize
  have worn : memory.writeInWords bytes =
      (Word.hold (memory.wear + amount)).map fun wear =>
        (memory.writeTime bytes, { memory with wear }) := by
    rw [← Word.hold_bind_add, writeInWords, Word.mul]
    cases Word.hold amount with
    | error fault => rfl
    | ok amount => cases Word.add memory.wear amount <;> rfl
  exact worn.trans (Word.map_hold ..)

namespace Device

/-- The wear of an access: the pages that it changes. -/
def wearOf (device : Device τ) (kind : Access) (bytes : Nat) : Nat :=
  if kind = .read then 0 else unitsFor bytes device.pageSize * device.pageSize

/-- The dirty pages of a device are among the pages that it has worn. -/
structure Sound (device : Device τ) : Prop where
  pageSize_pos : 0 < device.pageSize
  dirtyPages_mul : device.dirtyPages * device.pageSize ≤ device.wear

variable [Scalar τ] (device : Device τ) (kind : Access) (bytes : Nat)

theorem access_read : (device.access .read bytes).2 = device := by
  cases device <;> rfl

theorem access_effect : (device.access kind bytes).2.pageSize = device.pageSize ∧
    (device.access kind bytes).2.wear = device.wear + device.wearOf kind bytes := by
  cases device with
  | ssd drive =>
      cases kind with
      | read | write => exact ⟨rfl, rfl⟩
      | overwrite =>
          exact ⟨congrArg Ssd.Profile.pageSize (Ssd.profile_eraseFull ..), Ssd.wear_eraseFull ..⟩
  | pcm memory => cases kind <;> exact ⟨rfl, rfl⟩

variable {device}

/-- What a device has overwritten wears it by whole pages, and only so many of them stay dirty. -/
theorem Sound.access (sound : device.Sound) : (device.access kind bytes).2.Sound := by
  obtain ⟨samePages, worn⟩ := device.access_effect kind bytes
  refine ⟨samePages ▸ sound.pageSize_pos, ?_⟩
  have kept := sound.dirtyPages_mul
  rw [samePages, worn]
  cases device with
  | pcm memory => cases kind <;> exact (Nat.zero_mul _).le.trans (Nat.zero_le _)
  | ssd drive =>
      cases kind with
      | read | write => exact Nat.le_add_right_of_le kept
      | overwrite =>
          have fewer :
              (drive.overwrite bytes).2.dirtyPages ≤ drive.dirtyPages + drive.pages bytes :=
            Ssd.dirtyPages_eraseFull_le ..
          calc
            (drive.overwrite bytes).2.dirtyPages * drive.profile.pageSize
                ≤ (drive.dirtyPages + drive.pages bytes) * drive.profile.pageSize :=
              Nat.mul_le_mul_right _ fewer
            _ = drive.dirtyPages * drive.profile.pageSize +
                drive.pages bytes * drive.profile.pageSize := Nat.add_mul ..
            _ ≤ drive.wear + drive.pages bytes * drive.profile.pageSize :=
              Nat.add_le_add_right kept _

/-- An access in words. -/
theorem accessInWords_eq (sound : device.Sound) (fits : Fits device.wear) :
    device.accessInWords kind bytes =
      if Fits (device.access kind bytes).2.wear then .ok (device.access kind bytes)
      else .error .overflow := by
  cases device with
  | pcm memory =>
      cases kind with
      | read => exact (if_pos fits).symm
      | write | overwrite =>
          simp only [accessInWords, memory.writeInWords_eq]
          exact Word.bind_ite ..
  | ssd drive =>
      cases kind with
      | read => exact (if_pos fits).symm
      | write =>
          rw [accessInWords, drive.writeInWords_eq]
          exact Word.bind_ite ..
      | overwrite =>
          rw [accessInWords, Ssd.overwriteInWords_eq sound.pageSize_pos sound.dirtyPages_mul]
          exact Word.bind_ite ..

end Device

namespace Disk

variable {disk : Disk τ} {kind : Access} {bytes : Nat}

variable [Scalar τ]

theorem access_some (disk : Disk τ) (kind : Access) (someBytes : bytes ≠ 0) :
    disk.access kind bytes = ((disk.device.access kind bytes).1, {
      device := (disk.device.access kind bytes).2
      total := disk.total.record kind (disk.device.access kind bytes).1 bytes
      last := AccessLedger.empty.record kind (disk.device.access kind bytes).1 bytes }) :=
  if_neg someBytes

/-- An access in words. The ledger of the last access fits whenever the other one does. -/
theorem accessInWords_eq (sound : disk.device.Sound) (fits : disk.Fits) :
    disk.accessInWords kind bytes =
      if (disk.access kind bytes).2.Fits then .ok (disk.access kind bytes)
      else .error .overflow := by
  by_cases none : bytes = 0
  · subst none
    exact (if_pos fits).symm
  let time := (disk.device.access kind bytes).1
  rw [accessInWords, if_neg none, Device.accessInWords_eq kind bytes sound fits.1,
    access_some disk kind none, Word.bind_ite]
  by_cases worn : Fits (disk.device.access kind bytes).2.wear
  · simp only [if_pos worn, AccessLedger.recordInWords_eq AccessLedger.fits_empty,
      AccessLedger.recordInWords_eq fits.2, Word.bind_ite]
    by_cases counted : (disk.total.record kind time bytes).Fits
    · rw [if_pos (AccessLedger.fits_record_empty fits.2 counted), if_pos counted]
      exact (if_pos ⟨worn, counted⟩).symm
    · rw [if_neg counted, ite_self]
      exact (if_neg fun whole : Disk.Fits _ => counted whole.2).symm
  · rw [if_neg worn]
    exact (if_neg fun whole : Disk.Fits _ => worn whole.1).symm

end Disk

end MergeCost
