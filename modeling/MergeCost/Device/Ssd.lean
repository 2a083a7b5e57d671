import MergeCost.Error
import MergeCost.Scalar
import MergeCost.Word

/-!
A flash drive. It is accessed in whole pages, at one price per page for short accesses and another
for long ones. Overwritten pages become dirty, and every full block of dirty pages is erased. In
words, an access breaks off if the wear or the dirty pages grow too large for one.
-/

namespace MergeCost

/-- The parameters of a flash drive; times are seconds per page, and per block for an erase. -/
structure Ssd.Profile (τ : Type) where
  name : String
  pageSize : Nat
  blockSize : Nat
  randomRead : τ
  randomWrite : τ
  sequentialRead : τ
  sequentialWrite : τ
  erase : τ
  /-- An access of more pages than this is sequential. -/
  sequentialThreshold : Nat
deriving Repr, BEq

namespace Ssd.Profile

def standard : Profile Float where
  name := "SSD:Generic-MLC"
  pageSize := 4096
  blockSize := 256 * 1024
  randomRead := 0.000025
  randomWrite := 0.000200
  sequentialRead := 0.000012
  sequentialWrite := 0.000090
  erase := 0.001500
  sequentialThreshold := 1

variable {τ : Type} [Scalar τ]

def times (profile : Profile τ) : List τ :=
  [profile.randomRead, profile.randomWrite, profile.sequentialRead, profile.sequentialWrite,
    profile.erase]

def validate (profile : Profile τ) : Except (Error τ) Unit :=
  if profile.pageSize = 0 then .error (.config .ssdPageSize)
  else if profile.blockSize = 0 ∨ profile.blockSize % profile.pageSize ≠ 0 then
    .error (.config (.ssdBlockSize profile.blockSize profile.pageSize))
  else if profile.times.all Scalar.isDuration then .ok ()
  else .error (.config .ssdTimings)

end Ssd.Profile

structure Ssd (τ : Type) where
  profile : Ssd.Profile τ
  dirtyPages : Nat
  /-- The bytes written so far, in whole pages. -/
  wear : Nat
deriving Repr, BEq

namespace Ssd

variable {τ : Type} [Scalar τ]

def create (profile : Profile τ) : Except (Error τ) (Ssd τ) := do
  profile.validate
  return ⟨profile, 0, 0⟩

def pages (ssd : Ssd τ) (bytes : Nat) : Nat := unitsFor bytes ssd.profile.pageSize

def pagesPerBlock (ssd : Ssd τ) : Nat := ssd.profile.blockSize / ssd.profile.pageSize

def isSequential (ssd : Ssd τ) (pages : Nat) : Bool := ssd.profile.sequentialThreshold < pages

def readTime (ssd : Ssd τ) (bytes : Nat) : τ :=
  let pages := ssd.pages bytes
  Scalar.ofNat pages *
    (if ssd.isSequential pages then ssd.profile.sequentialRead else ssd.profile.randomRead)

def writeTime (ssd : Ssd τ) (bytes : Nat) : τ :=
  let pages := ssd.pages bytes
  Scalar.ofNat pages *
    (if ssd.isSequential pages then ssd.profile.sequentialWrite else ssd.profile.randomWrite)

def write (ssd : Ssd τ) (bytes : Nat) : τ × Ssd τ :=
  (ssd.writeTime bytes, { ssd with wear := ssd.wear + ssd.pages bytes * ssd.profile.pageSize })

/-- Erases each full block of dirty pages after a write of so many pages, and gives the time of
both. After a random write that erases, one page of valid data is read for the fresh block. -/
def eraseFull (written : Ssd τ) (time : τ) (pages dirty : Nat) : τ × Ssd τ :=
  let blocks := dirty / written.pagesPerBlock
  if blocks = 0 then (time, { written with dirtyPages := dirty })
  else
    let erased := time + Scalar.ofNat blocks * written.profile.erase
    (if written.isSequential pages then erased else erased + written.profile.randomRead,
      { written with dirtyPages := dirty - blocks * written.pagesPerBlock })

@[simp] theorem profile_eraseFull (written : Ssd τ) (time : τ) (pages dirty : Nat) :
    (written.eraseFull time pages dirty).2.profile = written.profile := by
  unfold eraseFull
  dsimp only
  split <;> rfl

@[simp] theorem wear_eraseFull (written : Ssd τ) (time : τ) (pages dirty : Nat) :
    (written.eraseFull time pages dirty).2.wear = written.wear := by
  unfold eraseFull
  dsimp only
  split <;> rfl

theorem dirtyPages_eraseFull_le (written : Ssd τ) (time : τ) (pages dirty : Nat) :
    (written.eraseFull time pages dirty).2.dirtyPages ≤ dirty := by
  unfold eraseFull
  dsimp only
  split
  · exact Nat.le_refl _
  · exact Nat.sub_le ..

/-- A write that leaves dirty pages behind. -/
def overwrite (ssd : Ssd τ) (bytes : Nat) : τ × Ssd τ :=
  let (time, written) := ssd.write bytes
  let pages := ssd.pages bytes
  written.eraseFull time pages (ssd.dirtyPages + pages)

/-! In words -/

def writeInWords (ssd : Ssd τ) (bytes : Nat) : Except Fault (τ × Ssd τ) := do
  let worn ← Word.mul (ssd.pages bytes) ssd.profile.pageSize
  let wear ← Word.add ssd.wear worn
  return (ssd.writeTime bytes, { ssd with wear })

def overwriteInWords (ssd : Ssd τ) (bytes : Nat) : Except Fault (τ × Ssd τ) := do
  let (time, written) ← ssd.writeInWords bytes
  let pages := ssd.pages bytes
  let dirty ← Word.add ssd.dirtyPages pages
  return written.eraseFull time pages dirty

end Ssd

end MergeCost
