import MergeCost.Cold.GroupedStore

/-!
The cold side of adaptive merging: partitions alone, or grouped into erase blocks.
-/

namespace MergeCost

inductive ColdTier (τ : Type) where
  | plain (store : PartitionStore)
  | grouped (store : GroupedStore τ)
deriving Repr, BEq

namespace ColdTier

variable {τ : Type}

def base : ColdTier τ → PartitionStore
  | plain store => store
  | grouped store => store.base

def grouped? : ColdTier τ → Option (GroupedStore τ)
  | plain _ => none
  | grouped store => some store

def entries (tier : ColdTier τ) : Nat := tier.base.entries

def withBase (base : PartitionStore) : ColdTier τ → ColdTier τ
  | plain _ => .plain base
  | grouped store => .grouped { store with base }

def locate (lookup : Lookup) (entries : Nat) : Sim τ (ColdTier τ) (List Located) := do
  let (located, base) ← Sim.orCrash ((← Sim.store).base.locate lookup entries)
  Sim.update (withBase base)
  return located

def touch [Scalar τ] (located : List Located) : Sim τ (ColdTier τ) (TouchCost τ) := do
  match ← Sim.store with
  | plain store =>
      Sim.zoom (fun _ => store) (fun store _ => plain store) (PartitionStore.touch located)
  | grouped store =>
      Sim.zoom (fun _ => store) (fun store _ => grouped store) (GroupedStore.touch located)

def touchInWords [Scalar τ] (located : List Located) : Sim τ (ColdTier τ) (TouchCost τ) := do
  match ← Sim.store with
  | plain store =>
      Sim.zoom (fun _ => store) (fun store _ => plain store) (PartitionStore.touchInWords located)
  | grouped store =>
      Sim.zoom (fun _ => store) (fun store _ => grouped store) (GroupedStore.touchInWords located)

end ColdTier

end MergeCost
