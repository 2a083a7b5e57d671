import MergeCost.Proofs.Device.Words
import MergeCost.Proofs.Scenario.Building
import MergeCost.Simulation.Transfers

/-!
When a flash drive erases. Overwritten pages are counted over the whole life of a drive, and each
full block of them costs one erase: what an overwrite is charged is the number of blocks that it
fills up, however little of them it has overwritten itself.
-/

namespace MergeCost

/-- What is carried over fills as many further blocks as the whole sum does. -/
theorem div_add_sub_div (sum more : Nat) {block : Nat} (positive : 0 < block) :
    (sum + more) / block - sum / block = (sum % block + more) / block := by
  have whole : sum + more = sum % block + more + block * (sum / block) := by
    have := Nat.mod_add_div sum block
    omega
  rw [whole, Nat.add_mul_div_left _ _ positive, Nat.add_sub_cancel]

namespace Ssd

variable {τ : Type}

namespace Profile

def pagesPerBlock (profile : Profile τ) : Nat := profile.blockSize / profile.pageSize

/-- The pages of the overwrites among some transfers, each rounded up by itself. -/
def overwrittenPages (profile : Profile τ) (transfers : List Transfer) : Nat :=
  total ((transfers.filter (·.kind = .overwrite)).map (unitsFor ·.bytes profile.pageSize))

/-- The pages of all writes and overwrites. -/
def changedPages (profile : Profile τ) (transfers : List Transfer) : Nat :=
  total ((transfers.filter (·.kind ≠ .read)).map (unitsFor ·.bytes profile.pageSize))

theorem overwrittenPages_concat (profile : Profile τ) (earlier : List Transfer)
    (last : Transfer) :
    profile.overwrittenPages (earlier ++ [last]) = profile.overwrittenPages earlier +
      if last.kind = .overwrite then unitsFor last.bytes profile.pageSize else 0 := by
  by_cases overwrites : last.kind = .overwrite <;> simp [overwrittenPages, overwrites]

theorem changedPages_concat (profile : Profile τ) (earlier : List Transfer) (last : Transfer) :
    profile.changedPages (earlier ++ [last]) = profile.changedPages earlier +
      if last.kind = .read then 0 else unitsFor last.bytes profile.pageSize := by
  by_cases reads : last.kind = .read <;> simp [changedPages, reads]

variable [Scalar τ] {profile : Profile τ}

theorem validate_ok (valid : profile.validate = .ok ()) :
    0 < profile.pageSize ∧ 0 < profile.blockSize ∧ profile.pageSize ∣ profile.blockSize := by
  have asDevice : (DeviceProfile.ssd profile).validate = .ok () := valid
  have positive : 0 < profile.pageSize := DeviceProfile.pageSize_pos asDevice
  unfold validate at valid
  rw [if_neg positive.ne'] at valid
  split at valid
  · contradiction
  · rename_i whole
    rw [not_or, not_not] at whole
    exact ⟨positive, Nat.pos_of_ne_zero whole.1, Nat.dvd_of_mod_eq_zero whole.2⟩

theorem pagesPerBlock_mul (valid : profile.validate = .ok ()) :
    profile.pagesPerBlock * profile.pageSize = profile.blockSize :=
  Nat.div_mul_cancel (validate_ok valid).2.2

theorem pagesPerBlock_pos (valid : profile.validate = .ok ()) : 0 < profile.pagesPerBlock := by
  apply Nat.pos_of_mul_pos_right (b := profile.pageSize)
  rw [pagesPerBlock_mul valid]
  exact (validate_ok valid).2.1

end Profile

variable [Scalar τ]

def serve (drive : Ssd τ) (transfer : Transfer) : Ssd τ :=
  match transfer.kind with
  | .read => drive
  | .write => (drive.write transfer.bytes).2
  | .overwrite => (drive.overwrite transfer.bytes).2

def run (drive : Ssd τ) (transfers : List Transfer) : Ssd τ := transfers.foldl serve drive

/-- The blocks of dirty pages that an overwrite fills up. -/
def erases (drive : Ssd τ) (bytes : Nat) : Nat :=
  (drive.dirtyPages + drive.pages bytes) / drive.profile.pagesPerBlock

/-- The time of an overwrite that comes with so many erases: that of the write, of the erases, and
of one random read if a random write erases anything. -/
def overwriteTime (drive : Ssd τ) (bytes erases : Nat) : τ :=
  let time := (drive.write bytes).1
  if erases = 0 then time
  else
    let erased := time + Scalar.ofNat erases * drive.profile.erase
    if drive.pages bytes ≤ drive.profile.sequentialThreshold then
      erased + drive.profile.randomRead
    else erased

theorem overwrite_eq (drive : Ssd τ) (bytes : Nat) :
    drive.overwrite bytes = (drive.overwriteTime bytes (drive.erases bytes),
      { (drive.write bytes).2 with
        dirtyPages := (drive.dirtyPages + drive.pages bytes) % drive.profile.pagesPerBlock }) := by
  have blocks : (drive.dirtyPages + drive.pages bytes) / (drive.write bytes).2.pagesPerBlock =
      drive.erases bytes := rfl
  have left : (drive.dirtyPages + drive.pages bytes) % drive.profile.pagesPerBlock =
      drive.dirtyPages + drive.pages bytes -
        drive.erases bytes * (drive.write bytes).2.pagesPerBlock :=
    Nat.mod_eq_sub_div_mul
  rw [left]
  by_cases none : drive.erases bytes = 0
  · simp only [overwrite, eraseFull, overwriteTime, blocks, none, if_true, Nat.zero_mul,
      Nat.sub_zero]
  · by_cases random : drive.pages bytes ≤ drive.profile.sequentialThreshold
    · have isRandom : (drive.write bytes).2.isSequential (drive.pages bytes) = false :=
        decide_eq_false (Nat.not_lt.mpr random)
      simp only [overwrite, eraseFull, overwriteTime, blocks, if_neg none, if_pos random, isRandom,
        Bool.false_eq_true, if_false]
      rfl
    · have isSequential : (drive.write bytes).2.isSequential (drive.pages bytes) = true :=
        decide_eq_true (Nat.lt_of_not_le random)
      simp only [overwrite, eraseFull, overwriteTime, blocks, if_neg none, if_neg random,
        isSequential, if_true]
      rfl

theorem serve_eq (drive : Ssd τ) (transfer : Transfer) :
    drive.serve transfer = {
      profile := drive.profile
      dirtyPages :=
        if transfer.kind = .overwrite then
          (drive.dirtyPages + drive.pages transfer.bytes) % drive.profile.pagesPerBlock
        else drive.dirtyPages
      wear :=
        if transfer.kind = .read then drive.wear
        else drive.wear + drive.pages transfer.bytes * drive.profile.pageSize } := by
  obtain ⟨kind, bytes⟩ := transfer
  cases kind with
  | read | write => rfl
  | overwrite => simp only [serve, overwrite_eq, write, if_true, reduceCtorEq, if_false]

/-- A drive after so many transfers: it keeps the remainder of the pages that have been overwritten,
and has been worn by all that have been changed. -/
structure Amortizes (profile : Profile τ) (transfers : List Transfer) (drive : Ssd τ) : Prop where
  profile_eq : drive.profile = profile
  dirtyPages_eq : drive.dirtyPages =
    profile.overwrittenPages transfers % profile.pagesPerBlock
  wear_eq : drive.wear = profile.pageSize * profile.changedPages transfers

namespace Amortizes

variable {profile : Profile τ} {transfers : List Transfer} {drive : Ssd τ}

omit [Scalar τ] in
theorem fresh (profile : Profile τ) : Amortizes profile [] ⟨profile, 0, 0⟩ :=
  ⟨rfl, (Nat.zero_mod _).symm, (Nat.mul_zero _).symm⟩

/-- Every transfer adds its pages to what it changes. -/
theorem serve (amortizes : Amortizes profile transfers drive) (transfer : Transfer) :
    Amortizes profile (transfers ++ [transfer]) (drive.serve transfer) := by
  obtain ⟨rfl, dirty, worn⟩ := amortizes
  rw [serve_eq]
  constructor
  case profile_eq => rfl
  case dirtyPages_eq =>
    rw [Profile.overwrittenPages_concat]
    by_cases overwrites : transfer.kind = .overwrite
    · simp only [if_pos overwrites, dirty, Nat.mod_add_mod]
      rfl
    · simp only [if_neg overwrites]
      exact dirty
  case wear_eq =>
    rw [Profile.changedPages_concat]
    by_cases reads : transfer.kind = .read
    · simp only [if_pos reads]
      exact worn
    · simp only [if_neg reads, worn, pages]
      rw [Nat.mul_add, Nat.mul_comm (unitsFor ..)]

/-- An overwrite erases the blocks that are full with it and were not full before. -/
theorem erases_eq (amortizes : Amortizes profile transfers drive)
    (valid : profile.validate = .ok ()) (bytes : Nat) :
    drive.erases bytes =
      profile.overwrittenPages (transfers ++ [⟨.overwrite, bytes⟩]) / profile.pagesPerBlock -
        profile.overwrittenPages transfers / profile.pagesPerBlock := by
  rw [Profile.overwrittenPages_concat, if_pos rfl,
    div_add_sub_div _ _ (Profile.pagesPerBlock_pos valid), ← amortizes.dirtyPages_eq, erases, pages,
    amortizes.profile_eq]

end Amortizes

theorem run_amortizes (profile : Profile τ) (transfers : List Transfer) :
    Amortizes profile transfers (run ⟨profile, 0, 0⟩ transfers) := by
  induction transfers using List.reverseRecOn with
  | nil => exact .fresh profile
  | append_singleton earlier last ih =>
      rw [run, List.foldl_concat]
      exact ih.serve last

/-! In words -/

def serveInWords (drive : Ssd τ) (transfer : Transfer) : Except Fault (Ssd τ) :=
  match transfer.kind with
  | .read => .ok drive
  | .write => return (← drive.writeInWords transfer.bytes).2
  | .overwrite => return (← drive.overwriteInWords transfer.bytes).2

def runInWords (drive : Ssd τ) (transfers : List Transfer) : Except Fault (Ssd τ) :=
  transfers.foldlM serveInWords drive

section InWords

variable {drive : Ssd τ} (sound : (Device.ssd drive).Sound)
include sound

theorem serve_sound (transfer : Transfer) : (Device.ssd (drive.serve transfer)).Sound := by
  obtain ⟨kind, bytes⟩ := transfer
  have still := sound.access kind bytes
  cases kind <;> exact still

theorem run_sound (transfers : List Transfer) : (Device.ssd (drive.run transfers)).Sound := by
  induction transfers generalizing drive with
  | nil => exact sound
  | cons first rest ih => exact ih (serve_sound sound first)

theorem serveInWords_eq (fits : Fits drive.wear) (transfer : Transfer) :
    drive.serveInWords transfer =
      if Fits (drive.serve transfer).wear then .ok (drive.serve transfer)
      else .error .overflow := by
  obtain ⟨kind, bytes⟩ := transfer
  cases kind with
  | read => exact (if_pos fits).symm
  | write =>
      simp only [serveInWords, drive.writeInWords_eq]
      exact Word.bind_ite ..
  | overwrite =>
      simp only [serveInWords, overwriteInWords_eq sound.pageSize_pos sound.dirtyPages_mul]
      exact Word.bind_ite ..

omit sound in
theorem wear_le_run (drive : Ssd τ) (transfers : List Transfer) :
    drive.wear ≤ (drive.run transfers).wear := by
  induction transfers generalizing drive with
  | nil => exact Nat.le_refl _
  | cons first rest ih =>
      refine Nat.le_trans ?_ (ih (drive.serve first))
      rw [serve_eq]
      dsimp only
      split
      · exact Nat.le_refl _
      · exact Nat.le_add_right ..

/-- A drive is only ever worn further, so that its wear in the end decides whether it goes the same
way in words. -/
theorem runInWords_eq (fits : Fits drive.wear) (transfers : List Transfer) :
    drive.runInWords transfers =
      if Fits (drive.run transfers).wear then .ok (drive.run transfers) else .error .overflow := by
  induction transfers generalizing drive with
  | nil => exact (if_pos fits).symm
  | cons first rest ih =>
      rw [runInWords, List.foldlM_cons, serveInWords_eq sound fits]
      by_cases next : Fits (drive.serve first).wear
      · rw [if_pos next]
        exact ih (serve_sound sound first) next
      · have large : ¬Fits (drive.run (first :: rest)).wear :=
          fun whole => next (Word.fits_of_le (wear_le_run (drive.serve first) rest) whole)
        rw [if_neg next, if_neg large]
        rfl

end InWords

/-- Erases are charged exactly as blocks are filled, whatever a drive has been through. In words, a
drive breaks off just if the bytes of all pages written or overwritten do not fit into one. Else the
pages of all its overwrites leave their remainder dirty; the next overwrite is charged, beyond the
price of the write, one erase for each block that the sum of these pages has more in it by then, and
one random read if there is any such block and the access is random. Reads and plain writes leave
dirty pages as they are, and the wear is that of all pages written or overwritten. -/
theorem run_erases {profile : Profile τ} {fresh : Ssd τ} (created : create profile = .ok fresh)
    (earlier : List Transfer) :
    (fresh.runInWords earlier = .error .overflow ∧
      ¬Fits (profile.pageSize * profile.changedPages earlier)) ∨
    ∃ drive, fresh.runInWords earlier = .ok drive ∧
      let perBlock := profile.blockSize / profile.pageSize
      drive.profile = profile ∧
      drive.dirtyPages = profile.overwrittenPages earlier % perBlock ∧
      drive.dirtyPages < perBlock ∧
      drive.wear = profile.pageSize * profile.changedPages earlier ∧
      (∀ bytes, drive.serveInWords ⟨.read, bytes⟩ = .ok drive ∧
        ∀ after, drive.serveInWords ⟨.write, bytes⟩ = .ok after →
          after.dirtyPages = drive.dirtyPages) ∧
      ∀ bytes,
        let transfers := earlier ++ [⟨.overwrite, bytes⟩]
        let erases := profile.overwrittenPages transfers / perBlock -
          profile.overwrittenPages earlier / perBlock
        let written := drive.writeTime bytes
        let erased := written + Scalar.ofNat erases * profile.erase
        (drive.overwriteInWords bytes = .error .overflow ∧
          ¬Fits (profile.pageSize * profile.changedPages transfers)) ∨
        ∃ time after, drive.overwriteInWords bytes = .ok (time, after) ∧
          time =
            if erases = 0 then written
            else if unitsFor bytes profile.pageSize ≤ profile.sequentialThreshold then
              erased + profile.randomRead
            else erased := by
  obtain ⟨_, valid, rest⟩ := Except.exists_of_bind created
  cases rest
  have sound : (Device.ssd ⟨profile, 0, 0⟩ : Device τ).Sound :=
    ⟨(Profile.validate_ok valid).1, (Nat.zero_mul _).le⟩
  have start : Fits (⟨profile, 0, 0⟩ : Ssd τ).wear := (by decide : Fits 0)
  let drive := run ⟨profile, 0, 0⟩ earlier
  have amortizes : Amortizes profile earlier drive := run_amortizes profile earlier
  have still : (Device.ssd drive).Sound := run_sound sound earlier
  rw [runInWords_eq sound start]
  by_cases fits : Fits drive.wear
  · right
    have dirty := amortizes.dirtyPages_eq
    refine ⟨drive, if_pos fits, amortizes.profile_eq, dirty, ?_, amortizes.wear_eq, ?_, ?_⟩
    · rw [dirty]
      exact Nat.mod_lt _ (Profile.pagesPerBlock_pos valid)
    · intro bytes
      refine ⟨rfl, fun after written => ?_⟩
      rw [serveInWords_eq still fits] at written
      split at written
      · cases written
        rfl
      · cases written
    · intro bytes transfers erases
      have charged : drive.erases bytes = erases := amortizes.erases_eq valid bytes
      have further := (amortizes.serve ⟨.overwrite, bytes⟩).wear_eq
      rw [overwriteInWords_eq still.pageSize_pos still.dirtyPages_mul, ← further]
      by_cases more : Fits (drive.overwrite bytes).2.wear
      · right
        refine ⟨(drive.overwrite bytes).1, (drive.overwrite bytes).2, if_pos more, ?_⟩
        rw [overwrite_eq, charged]
        simp only [overwriteTime, pages, amortizes.profile_eq]
        rfl
      · exact .inl ⟨if_neg more, more⟩
  · left
    rw [← amortizes.wear_eq]
    exact ⟨if_neg fits, fits⟩

/-- Blocks of three pages. Ten pages leave one dirty, and five more fill two blocks; they are still
few enough to be random. -/
theorem run_erases_of_two_blocks :
    ∃ fresh drive : Ssd Rat, create ⟨"SSD", 4, 12, 1, 2, 1, 1, 3, 9⟩ = .ok fresh ∧
      fresh.runInWords [⟨.overwrite, 5⟩, ⟨.write, 3⟩, ⟨.read, 9⟩, ⟨.overwrite, 30⟩] = .ok drive ∧
      drive.dirtyPages = 1 ∧ drive.wear = 44 ∧
      ∃ after, drive.overwriteInWords 20 = .ok (10 + 2 * 3 + 1, after) := by
  obtain ⟨fresh, created⟩ : ∃ fresh : Ssd Rat,
      create ⟨"SSD", 4, 12, 1, 2, 1, 1, 3, 9⟩ = .ok fresh := ⟨_, rfl⟩
  rcases run_erases created [⟨.overwrite, 5⟩, ⟨.write, 3⟩, ⟨.read, 9⟩, ⟨.overwrite, 30⟩] with
    ⟨_, large⟩ | ⟨drive, ran, same, dirty, -, worn, -, charged⟩
  · exact absurd (by decide +kernel) large
  · rcases charged 20 with ⟨_, large⟩ | ⟨time, after, ended, price⟩
    · exact absurd (by decide +kernel) large
    · have written : drive.writeTime 20 = 10 := by
        simp only [writeTime, pages, isSequential, same]
        decide +kernel
      rw [written] at price
      have seventeen : time = 10 + 2 * 3 + 1 := price.trans (by decide +kernel)
      rw [seventeen] at ended
      exact ⟨fresh, drive, created, ran, dirty, worn, after, ended⟩

/-! Drives between requests -/

/-- Fewer dirty pages than a block are pending on a drive. -/
structure Ready (profile : Profile τ) (drive : Ssd τ) : Prop where
  profile_eq : drive.profile = profile
  dirtyPages_lt : drive.dirtyPages < profile.pagesPerBlock

/-- The erases of the overwrites among some transfers. -/
def erasesOver : Ssd τ → List Transfer → Nat
  | _, [] => 0
  | drive, transfer :: rest =>
      (if transfer.kind = .overwrite then drive.erases transfer.bytes else 0) +
        (drive.serve transfer).erasesOver rest

namespace Ready

variable {profile : Profile τ} {drive : Ssd τ}

theorem fresh (valid : profile.validate = .ok ()) : Ready profile ⟨profile, 0, 0⟩ :=
  ⟨rfl, Profile.pagesPerBlock_pos valid⟩

theorem serve (ready : Ready profile drive) (transfer : Transfer) :
    Ready profile (drive.serve transfer) := by
  obtain ⟨rfl, dirty⟩ := ready
  rw [serve_eq]
  refine ⟨rfl, ?_⟩
  simp only
  split
  · exact Nat.mod_lt _ (Nat.zero_lt_of_lt dirty)
  · exact dirty

/-- A transfer of no bytes leaves such a drive as it is. -/
theorem serve_nothing (ready : Ready profile drive) (kind : Access) :
    drive.serve ⟨kind, 0⟩ = drive := by
  obtain ⟨rfl, dirty⟩ := ready
  have none : drive.pages 0 = 0 := unitsFor_zero _
  rw [serve_eq]
  simp only [none, Nat.zero_mul, Nat.add_zero, Nat.mod_eq_of_lt dirty, ite_self]

variable (valid : profile.validate = .ok ()) {bytes : Nat} (within : bytes ≤ profile.blockSize)
include valid within

theorem pages_le (ready : Ready profile drive) : drive.pages bytes ≤ profile.pagesPerBlock := by
  rw [pages, ready.profile_eq, unitsFor_le_iff (Profile.validate_ok valid).1,
    Profile.pagesPerBlock_mul valid]
  exact within

/-- What is no larger than a block fills one block at most. -/
theorem erases_le_one (ready : Ready profile drive) : drive.erases bytes ≤ 1 := by
  have pages := ready.pages_le valid within
  have dirty := ready.dirtyPages_lt
  rw [erases, ready.profile_eq]
  apply Nat.le_of_lt_succ
  apply Nat.div_lt_of_lt_mul
  omega

theorem wear_overwrite_le (ready : Ready profile drive) :
    (drive.overwrite bytes).2.wear ≤ drive.wear + profile.blockSize := by
  have pages := ready.pages_le valid within
  simp only [overwrite_eq, write]
  apply Nat.add_le_add_left
  rw [← Profile.pagesPerBlock_mul valid, ready.profile_eq]
  exact Nat.mul_le_mul_right _ pages

end Ready

end Ssd

end MergeCost
