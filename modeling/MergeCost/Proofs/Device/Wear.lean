import MergeCost.Proofs.Device.Doubles
import MergeCost.Proofs.Device.Words
import MergeCost.Proofs.Rounding
import MergeCost.Proofs.Scenario.Building
import Mathlib.Data.List.DropRight

/-!
The wear of a device against the ledger of its disk. Wear is counted in whole pages and survives a
reset, while the ledger counts bytes from the last reset on.
-/

namespace MergeCost

namespace Device

variable {τ : Type}

/-- A device that has just been built has not been worn. -/
theorem build_sound [Scalar τ] {profile : DeviceProfile τ} {device : Device τ}
    (built : profile.build = .ok device) : device.Sound ∧ device.wear = 0 := by
  rw [DeviceProfile.build_eq] at built
  cases valid : profile.validate with
  | error refusal =>
      rw [valid] at built
      cases built
  | ok checked =>
      rw [valid] at built
      cases built
      refine ⟨⟨DeviceProfile.pageSize_pos valid, ?_⟩, ?_⟩ <;> cases profile
      · exact (Nat.zero_mul _).le
      · exact (Nat.zero_mul _).le
      · rfl
      · rfl

end Device

namespace Disk

/-- What a disk is asked to do. -/
inductive Request where
  | access (kind : Access) (bytes : Nat)
  | reset
deriving Repr, DecidableEq

/-- The requests up to the last reset. -/
def untilReset (requests : List Request) : List Request := requests.rdropWhile (· ≠ .reset)

section Totals

variable {τ : Type}

/-- The bytes that the ledger has as written or overwritten. -/
def changedBytes (disk : Disk τ) : Nat :=
  (disk.total.traffic .write).bytes + (disk.total.traffic .overwrite).bytes

/-- The number of writes and overwrites in the ledger. -/
def changes (disk : Disk τ) : Nat :=
  (disk.total.traffic .write).operations + (disk.total.traffic .overwrite).operations

end Totals

variable {τ : Type} [Scalar τ] {cleared disk : Disk τ} {kind : Access} {bytes : Nat}

def serve (disk : Disk τ) : Request → Disk τ
  | .access kind bytes => (disk.access kind bytes).2
  | .reset => disk.resetLedgers

def run (disk : Disk τ) (requests : List Request) : Disk τ := requests.foldl serve disk

theorem run_concat (requests : List Request) (last : Request) :
    disk.run (requests ++ [last]) = (disk.run requests).serve last :=
  List.foldl_concat ..

theorem access_effect (disk : Disk τ) (kind : Access) (bytes : Nat) :
    (disk.access kind bytes).2.device.pageSize = disk.device.pageSize ∧
      (disk.access kind bytes).2.device.wear =
        disk.device.wear + disk.device.wearOf kind bytes := by
  by_cases none : bytes = 0
  · simp [none, Device.wearOf]
  · rw [access_some disk kind none]
    exact Device.access_effect ..

theorem account_read (disk : Disk τ) (bytes : Nat) :
    (disk.access .read bytes).2.changedBytes = disk.changedBytes ∧
      (disk.access .read bytes).2.changes = disk.changes := by
  by_cases none : bytes = 0
  · rw [none, access_zero]
    exact ⟨rfl, rfl⟩
  · have kept (kind : Access) (change : kind ≠ .read) :
        (disk.access .read bytes).2.total.traffic kind = disk.total.traffic kind := by
      rw [access_some disk .read none]
      exact AccessLedger.traffic_record_of_ne _ change ..
    rw [changedBytes, changes, kept .write (by decide), kept .overwrite (by decide)]
    exact ⟨rfl, rfl⟩

theorem account_change (disk : Disk τ) (change : kind ≠ .read) (someBytes : bytes ≠ 0) :
    (disk.access kind bytes).2.changedBytes = disk.changedBytes + bytes ∧
      (disk.access kind bytes).2.changes = disk.changes + 1 := by
  rw [access_some disk kind someBytes, changedBytes, changes]
  cases kind with
  | read => contradiction
  | write =>
      rw [AccessLedger.traffic_record, AccessLedger.traffic_record_of_ne _ (by decide)]
      exact ⟨Nat.add_right_comm .., Nat.add_right_comm ..⟩
  | overwrite =>
      rw [AccessLedger.traffic_record, AccessLedger.traffic_record_of_ne _ (by decide)]
      exact ⟨(Nat.add_assoc ..).symm, (Nat.add_assoc ..).symm⟩

theorem device_read (disk : Disk τ) (bytes : Nat) :
    (disk.access .read bytes).2.device = disk.device := by
  by_cases none : bytes = 0
  · rw [none, access_zero]
  · rw [access_some disk .read none]
    exact Device.access_read ..

/-- Every access is rounded up to whole pages by itself, so that each can add almost a page to the
wear beyond its bytes. -/
structure Wears (cleared disk : Disk τ) (growth : Nat) : Prop where
  wear_eq : disk.device.wear = cleared.device.wear + growth
  pageSize_dvd : disk.device.pageSize ∣ growth
  bytes_le : disk.changedBytes ≤ growth
  le_bytes : growth ≤ disk.changedBytes + disk.changes * (disk.device.pageSize - 1)

theorem Wears.nothing {disk : Disk τ} (empty : disk.total = .empty) : disk.Wears disk 0 where
  wear_eq := rfl
  pageSize_dvd := Nat.dvd_zero _
  bytes_le := by
    rw [changedBytes, empty]
    exact Nat.le_refl 0
  le_bytes := Nat.zero_le _

theorem Wears.read {growth : Nat} (wears : cleared.Wears disk growth) (bytes : Nat) :
    cleared.Wears (disk.access .read bytes).2 growth := by
  obtain ⟨sameBytes, sameChanges⟩ := account_read disk bytes
  obtain ⟨pageSize_eq, wear_eq⟩ := disk.access_effect .read bytes
  exact {
    wear_eq := wear_eq.trans wears.wear_eq
    pageSize_dvd := by
      rw [pageSize_eq]
      exact wears.pageSize_dvd
    bytes_le := by
      rw [sameBytes]
      exact wears.bytes_le
    le_bytes := by
      rw [sameBytes, sameChanges, pageSize_eq]
      exact wears.le_bytes }

theorem Wears.change {growth : Nat} (wears : cleared.Wears disk growth)
    (positive : 0 < disk.device.pageSize) (change : kind ≠ .read) (someBytes : bytes ≠ 0) :
    cleared.Wears (disk.access kind bytes).2
      (growth + unitsFor bytes disk.device.pageSize * disk.device.pageSize) := by
  obtain ⟨moreBytes, moreChanges⟩ := account_change disk change someBytes
  obtain ⟨pageSize_eq, wear_eq⟩ := disk.access_effect kind bytes
  rw [Device.wearOf, if_neg change, wears.wear_eq, Nat.add_assoc] at wear_eq
  have bytes_le := le_unitsFor_mul bytes positive
  have le_bytes := unitsFor_mul_le bytes positive
  exact {
    wear_eq
    pageSize_dvd := by
      rw [pageSize_eq]
      exact Nat.dvd_add wears.pageSize_dvd (Nat.dvd_mul_left ..)
    bytes_le := by
      rw [moreBytes]
      exact Nat.add_le_add wears.bytes_le bytes_le
    le_bytes := by
      rw [moreBytes, moreChanges, pageSize_eq, Nat.add_mul, Nat.one_mul, Nat.add_add_add_comm]
      exact Nat.add_le_add wears.le_bytes le_bytes }

theorem Wears.access {growth : Nat} (wears : cleared.Wears disk growth)
    (positive : 0 < disk.device.pageSize) (kind : Access) (bytes : Nat) :
    ∃ growth, cleared.Wears (disk.access kind bytes).2 growth := by
  by_cases none : bytes = 0
  · rw [none, access_zero]
    exact ⟨growth, wears⟩
  · by_cases reads : kind = .read
    · rw [reads]
      exact ⟨growth, wears.read bytes⟩
    · exact ⟨_, wears.change positive reads none⟩

theorem pageSize_run (disk : Disk τ) (requests : List Request) :
    (disk.run requests).device.pageSize = disk.device.pageSize := by
  induction requests using List.reverseRecOn with
  | nil => rfl
  | append_singleton earlier last same =>
      rw [run_concat]
      cases last with
      | access kind bytes => exact (access_effect ..).1.trans same
      | reset => exact same

theorem wear_le_run (disk : Disk τ) (requests : List Request) :
    disk.device.wear ≤ (disk.run requests).device.wear := by
  induction requests using List.reverseRecOn with
  | nil => exact Nat.le_refl _
  | append_singleton earlier last grows =>
      rw [run_concat]
      cases last with
      | access kind bytes =>
          rw [serve, (access_effect ..).2]
          exact Nat.le_add_right_of_le grows
      | reset => exact grows

/-- The wear since the last reset, over whatever was asked for. -/
theorem run_wears {device : Device τ} (positive : 0 < device.pageSize) (requests : List Request) :
    ∃ growth, ((create device).run (untilReset requests)).Wears
      ((create device).run requests) growth := by
  induction requests using List.reverseRecOn with
  | nil => exact ⟨0, .nothing rfl⟩
  | append_singleton earlier last wears =>
      obtain ⟨growth, wears⟩ := wears
      cases last with
      | access kind bytes =>
          have until_eq : untilReset (earlier ++ [.access kind bytes]) = untilReset earlier :=
            List.rdropWhile_concat_pos _ _ _ (by simp)
          rw [until_eq, run_concat]
          refine wears.access ?_ kind bytes
          rwa [pageSize_run]
      | reset =>
          have until_eq : untilReset (earlier ++ [.reset]) = earlier ++ [.reset] :=
            List.rdropWhile_concat_neg _ _ _ (by simp)
          rw [until_eq, run_concat]
          exact ⟨0, .nothing rfl⟩

/-- How the ledgers record an access: the last one holds it alone, and the total has grown by it. -/
structure Records (before : Disk Float) (kind : Access) (bytes : Nat) (time : Float)
    (after : Disk Float) : Prop where
  last_eq : ∃ recorded, after.last.traffic kind = ⟨recorded, bytes, 1⟩ ∧
    (recorded = time ∨ time = -0 ∧ recorded = 0)
  last_others : ∀ other, other ≠ kind → after.last.traffic other = .empty
  total_eq : after.total.traffic kind =
    ⟨(before.total.traffic kind).time + time, (before.total.traffic kind).bytes + bytes,
      (before.total.traffic kind).operations + 1⟩
  total_others : ∀ other, other ≠ kind → after.total.traffic other = before.total.traffic other

theorem access_records (disk : Disk Float) (kind : Access) (someBytes : bytes ≠ 0) :
    disk.Records kind bytes (disk.access kind bytes).1 (disk.access kind bytes).2 := by
  rw [access_some disk kind someBytes]
  refine {
    last_eq := ⟨_, ?_, Double.zero_add _⟩
    last_others := fun other different => ?_
    total_eq := AccessLedger.traffic_record ..
    total_others := fun other different => AccessLedger.traffic_record_of_ne _ different .. }
  · refine (AccessLedger.traffic_record ..).trans ?_
    rw [AccessLedger.traffic_empty]
    simp only [Traffic.record, Traffic.empty, Nat.zero_add]
  · exact (AccessLedger.traffic_record_of_ne _ different ..).trans
      (AccessLedger.traffic_empty other)

/-! In words -/

def serveInWords (disk : Disk τ) : Request → Except Fault (Disk τ)
  | .access kind bytes => return (← disk.accessInWords kind bytes).2
  | .reset => .ok disk.resetLedgers

def runInWords (disk : Disk τ) (requests : List Request) : Except Fault (Disk τ) :=
  requests.foldlM serveInWords disk

theorem serve_sound (sound : disk.device.Sound) (request : Request) :
    (disk.serve request).device.Sound := by
  cases request with
  | reset => exact sound
  | access kind bytes =>
      by_cases none : bytes = 0
      · subst none
        exact sound
      · rw [serve, access_some disk kind none]
        exact sound.access kind bytes

theorem serveInWords_eq (sound : disk.device.Sound) (fits : disk.Fits) (request : Request) :
    disk.serveInWords request =
      if (disk.serve request).Fits then .ok (disk.serve request) else .error .overflow := by
  cases request with
  | reset => exact (if_pos ⟨fits.1, AccessLedger.fits_empty⟩).symm
  | access kind bytes =>
      rw [serveInWords, accessInWords_eq sound fits, Word.bind_ite]
      rfl

/-- What a disk is asked for goes the same way in words as long as all that is counted on the way
fits into words. -/
theorem runInWords_of_fits (sound : disk.device.Sound) {requests : List Request}
    (fits : ∀ earlier, earlier <+: requests → (disk.run earlier).Fits) :
    disk.runInWords requests = .ok (disk.run requests) := by
  induction requests generalizing disk with
  | nil => rfl
  | cons first rest ih =>
      have start : disk.Fits := fits [] List.nil_prefix
      have next : (disk.serve first).Fits := fits [first] (List.prefix_append [first] rest)
      have step : disk.serveInWords first = .ok (disk.serve first) := by
        rw [serveInWords_eq sound start, if_pos next]
      rw [runInWords, List.foldlM_cons, step]
      refine ih (serve_sound sound first) fun earlier initial => ?_
      exact fits (first :: earlier) (List.cons_prefix_cons.mpr ⟨rfl, initial⟩)

theorem runInWords_of_not_fits (sound : disk.device.Sound) (start : disk.Fits)
    {requests earlier : List Request} (initial : earlier <+: requests)
    (large : ¬(disk.run earlier).Fits) : disk.runInWords requests = .error .overflow := by
  induction requests generalizing disk earlier with
  | nil =>
      rw [List.prefix_nil.mp initial] at large
      exact absurd start large
  | cons first rest ih =>
      rw [runInWords, List.foldlM_cons, serveInWords_eq sound start]
      by_cases next : (disk.serve first).Fits
      · rw [if_pos next]
        rcases List.prefix_cons_iff.mp initial with rfl | ⟨later, rfl, within⟩
        · exact absurd start large
        · exact ih (serve_sound sound first) next within large
      · rw [if_neg next]
        rfl

theorem run_sound (sound : disk.device.Sound) (requests : List Request) :
    (disk.run requests).device.Sound := by
  induction requests generalizing disk with
  | nil => exact sound
  | cons first rest ih => exact ih (serve_sound sound first)

/-- Whatever a disk comes to in words, it comes to it without them too. -/
theorem eq_run_of_runInWords (sound : disk.device.Sound) (start : disk.Fits)
    {requests : List Request} {after : Disk τ} (ran : disk.runInWords requests = .ok after) :
    after = disk.run requests := by
  by_cases fits : ∀ earlier, earlier <+: requests → (disk.run earlier).Fits
  · rw [runInWords_of_fits sound fits] at ran
    exact (Except.ok.inj ran).symm
  · push Not at fits
    obtain ⟨earlier, initial, large⟩ := fits
    rw [runInWords_of_not_fits sound start initial large] at ran
    cases ran

/-- An access in words ends as the access, or it breaks off. -/
theorem accessInWords_cases (sound : disk.device.Sound) (fits : disk.Fits) (kind : Access)
    (bytes : Nat) :
    (disk.accessInWords kind bytes = .error .overflow ∧ ¬(disk.access kind bytes).2.Fits) ∨
      disk.accessInWords kind bytes = .ok (disk.access kind bytes) := by
  rw [accessInWords_eq sound fits]
  by_cases more : (disk.access kind bytes).2.Fits
  · exact .inr (if_pos more)
  · exact .inl ⟨if_neg more, more⟩

/-- Wear and ledger agree on whatever a disk is asked for. Either the run breaks off, since the disk
would have counted more on the way than fits into words; or the wear since the last reset is what
has been written and overwritten since, in whole pages for each access. It never shrinks; reads and
resets leave the device alone; an access of no bytes changes nothing, and any other one is what the
last ledger holds and what the total has grown by, unless it breaks off in the same way. -/
theorem run_worn {profile : DeviceProfile Float} {device : Device Float}
    (built : profile.build = .ok device) (requests : List Request) :
    ((create device).runInWords requests = .error .overflow ∧
      ∃ earlier, earlier <+: requests ∧ ¬((create device).run earlier).Fits) ∨
    ∃ cleared disk, (create device).runInWords (untilReset requests) = .ok cleared ∧
      (create device).runInWords requests = .ok disk ∧
      (∃ growth, disk.device.wear = cleared.device.wear + growth ∧
        disk.device.pageSize ∣ growth ∧ disk.changedBytes ≤ growth ∧
        growth ≤ disk.changedBytes + disk.changes * (disk.device.pageSize - 1)) ∧
      (∀ later after, disk.runInWords later = .ok after → disk.device.wear ≤ after.device.wear) ∧
      (∀ bytes time after, disk.accessInWords .read bytes = .ok (time, after) →
        after.device = disk.device) ∧
      disk.resetLedgers.device = disk.device ∧
      (∀ kind, disk.accessInWords kind 0 = .ok (Scalar.zero, disk)) ∧
      ∀ kind bytes, bytes ≠ 0 →
        (disk.accessInWords kind bytes = .error .overflow ∧ ¬(disk.access kind bytes).2.Fits) ∨
        ∃ time after, disk.accessInWords kind bytes = .ok (time, after) ∧
          disk.Records kind bytes time after := by
  obtain ⟨sound, unworn⟩ := Device.build_sound built
  have start : (create device).Fits := ⟨unworn ▸ by decide, AccessLedger.fits_empty⟩
  by_cases fits : ∀ earlier, earlier <+: requests → ((create device).run earlier).Fits
  · right
    let disk := (create device).run requests
    obtain ⟨growth, wears⟩ := run_wears sound.pageSize_pos requests
    have until_prefix : untilReset requests <+: requests := List.rdropWhile_prefix _ _
    have whole : disk.Fits := fits requests (List.prefix_refl _)
    have still : disk.device.Sound := run_sound sound requests
    refine ⟨_, disk,
      runInWords_of_fits sound fun earlier initial => fits earlier (initial.trans until_prefix),
      runInWords_of_fits sound fits,
      ⟨growth, wears.wear_eq, wears.pageSize_dvd, wears.bytes_le, wears.le_bytes⟩, ?_, ?_, rfl,
      fun _ => rfl, ?_⟩
    · intro later after ran
      rw [eq_run_of_runInWords still whole ran]
      exact wear_le_run disk later
    · intro bytes time after ran
      rcases accessInWords_cases still whole .read bytes with ⟨broken, _⟩ | ended
      · rw [ran] at broken
        cases broken
      · have same := Except.ok.inj (ran.symm.trans ended)
        rw [show after = (disk.access .read bytes).2 from congrArg Prod.snd same]
        exact device_read disk bytes
    · intro kind bytes someBytes
      exact (accessInWords_cases still whole kind bytes).imp_right fun ended =>
        ⟨_, _, ended, access_records disk kind someBytes⟩
  · left
    push Not at fits
    obtain ⟨earlier, initial, large⟩ := fits
    exact ⟨runInWords_of_not_fits sound start initial large, earlier, initial, large⟩

/-- With pages of 4096 bytes, nine thousand bytes wear out three pages. That wear stays when the
ledgers are reset. -/
theorem run_worn_of_reset :
    ∃ device disk, (DeviceProfile.ssd .standard).build = .ok device ∧
      (create device).runInWords [.access .write 9000, .reset, .access .overwrite 3,
        .access .read 70, .access .write 5000] = .ok disk ∧
      ∃ growth, disk.device.wear = 3 * 4096 + growth ∧ 4096 ∣ growth ∧ 5003 ≤ growth ∧
        growth ≤ 5003 + 2 * 4095 := by
  have valid : Ssd.Profile.standard.validate = .ok () := by
    have durations : Ssd.Profile.standard.times.all Scalar.isDuration := by decide +kernel
    rw [Ssd.Profile.validate, if_neg (by decide), if_neg (by decide), if_pos durations]
  let device : Device Float := .ssd ⟨.standard, 0, 0⟩
  let requests : List Request := [.access .write 9000, .reset, .access .overwrite 3,
    .access .read 70, .access .write 5000]
  have built : (DeviceProfile.ssd .standard).build = .ok device := by
    rw [DeviceProfile.build, Ssd.create, valid]
    rfl
  have worn : ((create device).runInWords (untilReset requests)).toOption.map
      (fun disk => disk.device.wear) = some (3 * 4096) := by decide +kernel
  have charged : ((create device).runInWords requests).toOption.map
      (fun disk => (disk.device.pageSize, disk.changedBytes, disk.changes)) =
        some (4096, 5003, 2) := by decide +kernel
  rcases run_worn built requests with ⟨broken, _⟩ | ⟨cleared, disk, earlier, ran, grown, _⟩
  · rw [broken] at charged
    cases charged
  · rw [earlier] at worn
    rw [ran] at charged
    have start : cleared.device.wear = 3 * 4096 := Option.some.inj worn
    have counts := Option.some.inj charged
    have pageSize : disk.device.pageSize = 4096 := congrArg Prod.fst counts
    have bytes : disk.changedBytes = 5003 := congrArg (·.2.1) counts
    have changes : disk.changes = 2 := congrArg (·.2.2) counts
    rw [start, pageSize, bytes, changes] at grown
    exact ⟨device, disk, built, ran, grown⟩

end Disk

end MergeCost
