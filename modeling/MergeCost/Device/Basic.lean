import MergeCost.Device.Ssd
import MergeCost.Device.Pcm
import MergeCost.Access

/-!
A device of either kind. An access gives the time it takes, and the device with its wear and dirty
pages afterwards.
-/

namespace MergeCost

inductive DeviceProfile (τ : Type) where
  | ssd (profile : Ssd.Profile τ)
  | pcm (profile : Pcm.Profile τ)
deriving Repr, BEq

inductive Device (τ : Type) where
  | ssd (ssd : Ssd τ)
  | pcm (pcm : Pcm τ)
deriving Repr, BEq

namespace DeviceProfile

variable {τ : Type} [Scalar τ]

def validate : DeviceProfile τ → Except (Error τ) Unit
  | ssd profile => profile.validate
  | pcm profile => profile.validate

def build : DeviceProfile τ → Except (Error τ) (Device τ)
  | ssd profile => (Ssd.create profile).map .ssd
  | pcm profile => (Pcm.create profile).map .pcm

end DeviceProfile

namespace Device

variable {τ : Type}

def profile : Device τ → DeviceProfile τ
  | ssd drive => .ssd drive.profile
  | pcm memory => .pcm memory.profile

def name : Device τ → String
  | ssd drive => drive.profile.name
  | pcm memory => memory.profile.name

def pageSize : Device τ → Nat
  | ssd drive => drive.profile.pageSize
  | pcm memory => memory.profile.pageSize

/-- The size of an erase block; 0 where nothing is erased. -/
def blockSize : Device τ → Nat
  | ssd drive => drive.profile.blockSize
  | pcm _ => 0

def wear : Device τ → Nat
  | ssd drive => drive.wear
  | pcm memory => memory.wear

def dirtyPages : Device τ → Nat
  | ssd drive => drive.dirtyPages
  | pcm _ => 0

def isByteAddressable : Device τ → Bool
  | ssd _ => false
  | pcm _ => true

variable [Scalar τ]

def access (device : Device τ) (access : Access) (bytes : Nat) : τ × Device τ :=
  match device, access with
  | ssd drive, .read => (drive.readTime bytes, device)
  | ssd drive, .write => let (time, drive) := drive.write bytes; (time, ssd drive)
  | ssd drive, .overwrite => let (time, drive) := drive.overwrite bytes; (time, ssd drive)
  | pcm memory, .read => (memory.readTime bytes, device)
  | pcm memory, _ => let (time, memory) := memory.write bytes; (time, pcm memory)

def accessInWords (device : Device τ) (access : Access) (bytes : Nat) :
    Except Fault (τ × Device τ) :=
  match device, access with
  | ssd drive, .read => .ok (drive.readTime bytes, device)
  | ssd drive, .write => return (← drive.writeInWords bytes).map id ssd
  | ssd drive, .overwrite => return (← drive.overwriteInWords bytes).map id ssd
  | pcm memory, .read => .ok (memory.readTime bytes, device)
  | pcm memory, _ => return (← memory.writeInWords bytes).map id pcm

end Device

end MergeCost
