import MergeCost.Error
import MergeCost.Scalar
import MergeCost.Word

/-!
Phase-change memory. It is addressed by bytes: every access takes one latency, whatever its size,
and nothing has to be erased. In words, a write breaks off if the wear grows too large for one.
-/

namespace MergeCost

/-- The parameters of phase-change memory; times are seconds per access. -/
structure Pcm.Profile (τ : Type) where
  name : String
  /-- The unit in which wear is counted. -/
  pageSize : Nat
  readTime : τ
  writeTime : τ
deriving Repr, BEq

namespace Pcm.Profile

def standard : Profile Float where
  name := "PCM:Generic"
  pageSize := 64
  readTime := 0.0000003
  writeTime := 0.0000015

variable {τ : Type} [Scalar τ]

def validate (profile : Profile τ) : Except (Error τ) Unit :=
  if profile.pageSize = 0 then .error (.config .pcmPageSize)
  else if Scalar.isDuration profile.readTime && Scalar.isDuration profile.writeTime then .ok ()
  else .error (.config .pcmTimings)

end Pcm.Profile

structure Pcm (τ : Type) where
  profile : Pcm.Profile τ
  /-- The bytes written so far, in whole units of wear. -/
  wear : Nat
deriving Repr, BEq

namespace Pcm

variable {τ : Type} [Scalar τ]

def create (profile : Profile τ) : Except (Error τ) (Pcm τ) := do
  profile.validate
  return ⟨profile, 0⟩

def readTime (pcm : Pcm τ) (bytes : Nat) : τ :=
  if bytes = 0 then Scalar.zero else pcm.profile.readTime

def writeTime (pcm : Pcm τ) (bytes : Nat) : τ :=
  if bytes = 0 then Scalar.zero else pcm.profile.writeTime

def write (pcm : Pcm τ) (bytes : Nat) : τ × Pcm τ :=
  (pcm.writeTime bytes,
    { pcm with wear := pcm.wear + unitsFor bytes pcm.profile.pageSize * pcm.profile.pageSize })

def writeInWords (pcm : Pcm τ) (bytes : Nat) : Except Fault (τ × Pcm τ) := do
  let worn ← Word.mul (unitsFor bytes pcm.profile.pageSize) pcm.profile.pageSize
  let wear ← Word.add pcm.wear worn
  return (pcm.writeTime bytes, { pcm with wear })

end Pcm

end MergeCost
