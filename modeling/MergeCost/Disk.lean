import MergeCost.Device.Basic
import MergeCost.Ledger.AccessLedger

/-!
A device with two ledgers: one of all accesses, one of the last access alone. An access of no bytes
costs nothing and leaves no trace.
-/

namespace MergeCost

structure Disk (τ : Type) where
  device : Device τ
  total : AccessLedger τ
  last : AccessLedger τ
deriving Repr, BEq

namespace Disk

variable {τ : Type} [Scalar τ]

def create (device : Device τ) : Disk τ := ⟨device, .empty, .empty⟩

def access (disk : Disk τ) (access : Access) (bytes : Nat) : τ × Disk τ :=
  if bytes = 0 then (Scalar.zero, disk)
  else
    let (time, device) := disk.device.access access bytes
    (time, {
      device
      total := disk.total.record access time bytes
      last := AccessLedger.empty.record access time bytes })

/-- No count of a disk has grown too large for a word. -/
protected def Fits (disk : Disk τ) : Prop := Fits disk.device.wear ∧ disk.total.Fits

instance (disk : Disk τ) : Decidable disk.Fits :=
  inferInstanceAs (Decidable (_ ∧ _))

def accessInWords (disk : Disk τ) (access : Access) (bytes : Nat) : Except Fault (τ × Disk τ) :=
  if bytes = 0 then .ok (Scalar.zero, disk)
  else do
    let (time, device) ← disk.device.accessInWords access bytes
    let last ← AccessLedger.empty.recordInWords access time bytes
    let total ← disk.total.recordInWords access time bytes
    return (time, { device, total, last })

@[simp] theorem access_zero (disk : Disk τ) (access : Access) :
    disk.access access 0 = (Scalar.zero, disk) := rfl

/-- Clears both ledgers and leaves the device as it is. -/
def resetLedgers (disk : Disk τ) : Disk τ := { disk with total := .empty, last := .empty }

end Disk

end MergeCost
