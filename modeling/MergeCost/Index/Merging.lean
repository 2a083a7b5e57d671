import MergeCost.Cold.ColdTier
import MergeCost.Index.EntryStore

/-!
Adaptive merging: an index of hot entries, wrapped together with a cold tier.

Each find or delete is split between the two in proportion to their entries. The cold part is
located and touched, and the entries that leave the cold tier are inserted into the wrapped index.
-/

namespace MergeCost

/-- How a touch of cold entries is charged: at once by rewriting blocks, put off until a
reorganization, or in place on a byte-addressable device. -/
inductive MergingVariant where
  | eager
  | deferred
  | inPlace
deriving Repr, DecidableEq

def MergingVariant.name : MergingVariant → String
  | .eager => "AdaptiveMerging"
  | .deferred => "LazyAdaptiveMerging"
  | .inPlace => "PCMAdaptiveMerging"

structure Merging (τ σ : Type) where
  variant : MergingVariant
  wrapped : σ
  cold : ColdTier τ
  ledger : OperationLedger τ
  /-- The fraction of an entry by which the cold side is behind its share. -/
  carry : τ
  expectedEntries : Nat
deriving Repr

/-- The two parts of a request, and the fraction carried over to the next one. -/
structure Split (τ : Type) where
  cold : Nat
  hot : Nat
  carry : τ
deriving Repr

/-- Splits a request in proportion to cold and hot entries. The cold part is the whole part of its
exact share, held between what the hot side cannot give and what the cold side can; a share that
had to be changed carries nothing over. -/
def Split.of {τ : Type} [Scalar τ] (entries cold hot : Nat) (carry : τ) : Except Fault (Split τ) :=
  if cold + hot = 0 then .ok ⟨0, 0, carry⟩
  else
    let exact :=
      Scalar.ofNat entries * Scalar.ofNat cold / Scalar.ofNat (cold + hot) + carry
    let share := Scalar.floor exact
    let lower := entries - hot
    let upper := min entries cold
    if upper < lower then .error (.boundsCrossed lower upper)
    else
      let part := max lower (min share upper)
      .ok ⟨part, entries - part,
        if part = share then exact - Scalar.ofNat share else Scalar.zero⟩

/-- A request for no more than there is can be split, and neither side is asked for more than it
has. -/
theorem Split.of_exists {τ : Type} [Scalar τ] {entries cold hot : Nat} (carry : τ)
    (enough : entries ≤ cold + hot) :
    ∃ parts, Split.of entries cold hot carry = .ok parts ∧
      parts.cold + parts.hot = entries ∧ parts.cold ≤ cold ∧ parts.hot ≤ hot := by
  unfold Split.of
  split
  · exact ⟨_, rfl, by simp only; omega, by simp only; omega, by simp only; omega⟩
  · simp only
    split
    · omega
    · exact ⟨_, rfl, by simp only; omega, by simp only; omega, by simp only; omega⟩

namespace Merging

variable {τ σ : Type} [EntryStore τ σ]

def entries (merging : Merging τ σ) : Nat :=
  merging.cold.entries + EntryStore.entries merging.wrapped

variable [Scalar τ]

def create (variant : MergingVariant) (wrapped : σ) (cold : ColdTier τ) : Merging τ σ where
  variant
  wrapped
  cold
  ledger := .empty
  carry := Scalar.zero
  expectedEntries := cold.entries + EntryStore.entries wrapped

/-- The report of a new index on a device. -/
def creation (merging : Merging τ σ) (device : Device τ) : Event τ :=
  .created merging.variant.name (EntryStore.name merging.wrapped)
    merging.cold.base.partitions.size merging.cold.entries device.name

def onWrapped {α : Type} (action : Sim τ σ α) : Sim τ (Merging τ σ) α :=
  Sim.zoom wrapped (fun wrapped merging => { merging with wrapped }) action

def onCold {α : Type} (action : Sim τ (ColdTier τ) α) : Sim τ (Merging τ σ) α :=
  Sim.zoom cold (fun cold merging => { merging with cold }) action

def record (operation : Operation) (time : τ) (operations : Nat) : Sim τ (Merging τ σ) Unit :=
  Sim.update fun merging =>
    { merging with ledger := merging.ledger.record operation time operations }

/-- Breaks off unless both sides together have the entries that they should have. -/
def checkEntries : Sim τ (Merging τ σ) Unit := do
  let merging ← Sim.store
  if merging.entries ≠ merging.expectedEntries then
    Sim.crash (.entriesDiverged merging.entries merging.expectedEntries)

/-- Splits a request and keeps the fraction that is carried over. -/
def split (entries : Nat) : Sim τ (Merging τ σ) (Split τ) := do
  let merging ← Sim.store
  let parts ← Sim.orCrash
    (Split.of entries merging.cold.entries (EntryStore.entries merging.wrapped) merging.carry)
  Sim.update fun merging => { merging with carry := parts.carry }
  return parts

/-- Locates and touches cold entries, and records both parts of the cost. -/
def touchCold (lookup : Lookup) (entries : Nat) : Sim τ (Merging τ σ) (TouchCost τ) := do
  let located ← onCold (ColdTier.locate lookup entries)
  let cost ← onCold (ColdTier.touch located)
  if !located.isEmpty then
    record .invalidation cost.invalidationTime cost.invalidations
    record .loading cost.loadingTime cost.loadings
  return cost

/-- Touches cold entries and moves them to the wrapped index. -/
def migrate (lookup : Lookup) (entries : Nat) (time : τ) : Sim τ (Merging τ σ) (Nat × τ) := do
  let cost ← touchCold lookup entries
  let inserted ← onWrapped (EntryStore.insert cost.entries)
  return (cost.entries, time + cost.time + inserted)

/-- Adds the time of a find in the wrapped index. -/
def findWrapped (lookup : Lookup) (entries repeats : Nat) (time : τ) : Sim τ (Merging τ σ) τ := do
  return time + (← onWrapped (EntryStore.find lookup entries repeats))

/-- Adds the time of a find in the cold tier. Entries that have moved are found in the wrapped index
for each further repeat. -/
def findCold (lookup : Lookup) (entries repeats : Nat) (time : τ) : Sim τ (Merging τ σ) τ := do
  let (moved, time) ← migrate lookup entries time
  if 1 < repeats then findWrapped lookup moved (repeats - 1) time
  else return time

def find (lookup : Lookup) (entries repeats : Nat) : Sim τ (Merging τ σ) τ := do
  let entries := min entries (← Sim.store).entries
  if entries = 0 ∨ repeats = 0 then return Scalar.zero
  let parts ← split entries
  let time ←
    if parts.hot = 0 then pure Scalar.zero
    else findWrapped lookup parts.hot repeats Scalar.zero
  let time ← if parts.cold = 0 then pure time else findCold lookup parts.cold repeats time
  record (.request lookup.request) time 1
  checkEntries
  return time

def insert (entries : Nat) : Sim τ (Merging τ σ) τ := do
  if entries = 0 then return Scalar.zero
  let time ← onWrapped (EntryStore.insert entries)
  Sim.update fun merging =>
    { merging with expectedEntries := merging.expectedEntries + entries }
  record (.request .insert) time 1
  checkEntries
  return time

/-- Adds the time of a delete in the wrapped index. -/
def deleteWrapped (entries : Nat) (time : τ) : Sim τ (Merging τ σ) τ := do
  return time + (← onWrapped (EntryStore.delete entries))

/-- Adds the time of a delete in the cold tier: the entries move first and are deleted then. -/
def deleteCold (entries : Nat) (time : τ) : Sim τ (Merging τ σ) τ := do
  let (moved, time) ← migrate .point entries time
  deleteWrapped moved time

/-- Lowers the number of entries that there should be. -/
def expectFewer (entries : Nat) : Sim τ (Merging τ σ) Unit := do
  if (← Sim.store).expectedEntries < entries then Sim.crash .entriesUnderflow
  Sim.update fun merging =>
    { merging with expectedEntries := merging.expectedEntries - entries }

def delete (entries : Nat) : Sim τ (Merging τ σ) τ := do
  let entries := min entries (← Sim.store).entries
  if entries = 0 then return Scalar.zero
  let parts ← split entries
  let time ← if parts.hot = 0 then pure Scalar.zero else deleteWrapped parts.hot Scalar.zero
  let time ← if parts.cold = 0 then pure time else deleteCold parts.cold time
  expectFewer entries
  record (.request .delete) time 1
  checkEntries
  return time

def refuseBulkload : Sim τ (Merging τ σ) τ := do
  throw (.bulkloadUnsupported (← Sim.store).variant.name)

instance : EntryStore τ (Merging τ σ) where
  name merging := merging.variant.name
  entries := entries
  keySize merging := EntryStore.keySize merging.wrapped
  dataSize merging := EntryStore.dataSize merging.wrapped
  canBulkload _ := false
  ledger := ledger
  insert := insert
  bulkload _ := refuseBulkload
  find := find
  delete := delete

end Merging

end MergeCost
