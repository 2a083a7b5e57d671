import MergeCost.Index.Call

/-!
Calls in words. A call breaks off as soon as something that is counted for it does not fit into a
word: bytes and accesses on the disk, a product taken beforehand, what a touch of cold entries adds
up, or in the end the entries and operations of a store.
-/

namespace MergeCost

def OperationLedger.hold {τ : Type} (ledger : OperationLedger τ) : Except Fault Unit :=
  if ∀ operation ∈ Operation.all, Fits (ledger.tally operation).operations then .ok ()
  else .error .overflow

namespace EntryStore

/-- The requests to a store in words. -/
class InWords (τ : outParam Type) (σ : Type) [EntryStore τ σ] where
  insert : Nat → Sim τ σ τ
  bulkload : Nat → Sim τ σ τ
  find : Lookup → Nat → Nat → Sim τ σ τ
  delete : Nat → Sim τ σ τ

variable {τ σ α : Type} [EntryStore τ σ]

/-- Breaks off if the store has come to more entries or operations than fit into words. -/
def held (action : Sim τ σ α) : Sim τ σ α := do
  let value ← action
  let store ← Sim.store
  let _ ← Sim.orCrash (Word.hold (entries store))
  let _ ← Sim.orCrash (ledger store).hold
  return value

def findShareInWords [Scalar τ] [InWords τ σ] (lookup : Lookup) (share : τ) (repeats : Nat) :
    Sim τ σ τ := do
  match entriesOfShare (entries (← Sim.store)) share with
  | .ok count => InWords.find lookup count repeats
  | .error refusal => throw refusal

end EntryStore

open EntryStore (held)

namespace BTree

variable {τ : Type} [Scalar τ]

/-- The bytes of the leaves are taken once and before the first descent. -/
def findRangeInWords (entries repeats : Nat) : Sim τ (BTree τ) τ := do
  let tree ← Sim.store
  let asked := min entries tree.entries
  if asked = 0 ∨ repeats = 0 then return Scalar.zero
  let _ ← Sim.orCrash (Word.mul (unitsFor asked tree.fanout) tree.nodeSize)
  Sim.inWords (findRange entries repeats)

instance : EntryStore.InWords τ (BTree τ) where
  insert entries := held (Sim.inWords (insert entries))
  bulkload entries := held (bulkloadInWords entries)
  find
    | .point, entries, repeats => held (Sim.inWords (findPoint entries repeats))
    | .range, entries, repeats => held (findRangeInWords entries repeats)
  delete entries := held (Sim.inWords (delete entries))

end BTree

namespace Merging

variable {τ σ : Type} [EntryStore τ σ] [Scalar τ]

def touchColdInWords (lookup : Lookup) (entries : Nat) :
    Sim τ (Merging τ σ) (TouchCost τ) := do
  let located ← onCold (ColdTier.locate lookup entries)
  let cost ← onCold (ColdTier.touchInWords located)
  if !located.isEmpty then
    record .invalidation cost.invalidationTime cost.invalidations
    record .loading cost.loadingTime cost.loadings
  return cost

variable [EntryStore.InWords τ σ]

def migrateInWords (lookup : Lookup) (entries : Nat) (time : τ) :
    Sim τ (Merging τ σ) (Nat × τ) := do
  let cost ← touchColdInWords lookup entries
  let inserted ← onWrapped (EntryStore.InWords.insert cost.entries)
  return (cost.entries, time + cost.time + inserted)

def findWrappedInWords (lookup : Lookup) (entries repeats : Nat) (time : τ) :
    Sim τ (Merging τ σ) τ := do
  return time + (← onWrapped (EntryStore.InWords.find lookup entries repeats))

def findColdInWords (lookup : Lookup) (entries repeats : Nat) (time : τ) :
    Sim τ (Merging τ σ) τ := do
  let (moved, time) ← migrateInWords lookup entries time
  if 1 < repeats then findWrappedInWords lookup moved (repeats - 1) time
  else return time

def findInWords (lookup : Lookup) (entries repeats : Nat) : Sim τ (Merging τ σ) τ := do
  let entries := min entries (← Sim.store).entries
  if entries = 0 ∨ repeats = 0 then return Scalar.zero
  let parts ← split entries
  let time ←
    if parts.hot = 0 then pure Scalar.zero
    else findWrappedInWords lookup parts.hot repeats Scalar.zero
  let time ← if parts.cold = 0 then pure time else findColdInWords lookup parts.cold repeats time
  record (.request lookup.request) time 1
  checkEntries
  return time

def insertInWords (entries : Nat) : Sim τ (Merging τ σ) τ := do
  if entries = 0 then return Scalar.zero
  let time ← onWrapped (EntryStore.InWords.insert entries)
  Sim.update fun merging =>
    { merging with expectedEntries := merging.expectedEntries + entries }
  record (.request .insert) time 1
  checkEntries
  return time

def deleteWrappedInWords (entries : Nat) (time : τ) : Sim τ (Merging τ σ) τ := do
  return time + (← onWrapped (EntryStore.InWords.delete entries))

def deleteColdInWords (entries : Nat) (time : τ) : Sim τ (Merging τ σ) τ := do
  let (moved, time) ← migrateInWords .point entries time
  deleteWrappedInWords moved time

def deleteInWords (entries : Nat) : Sim τ (Merging τ σ) τ := do
  let entries := min entries (← Sim.store).entries
  if entries = 0 then return Scalar.zero
  let parts ← split entries
  let time ← if parts.hot = 0 then pure Scalar.zero else deleteWrappedInWords parts.hot Scalar.zero
  let time ← if parts.cold = 0 then pure time else deleteColdInWords parts.cold time
  expectFewer entries
  record (.request .delete) time 1
  checkEntries
  return time

instance : EntryStore.InWords τ (Merging τ σ) where
  insert entries := held (insertInWords entries)
  bulkload _ := refuseBulkload
  find lookup entries repeats := held (findInWords lookup entries repeats)
  delete entries := held (deleteInWords entries)

end Merging

variable {τ : Type} [Scalar τ]

instance Stack.inWords : (depth : Nat) → EntryStore.InWords τ (Stack τ depth)
  | 0 => inferInstanceAs (EntryStore.InWords τ (BTree τ))
  | depth + 1 =>
      have := Stack.inWords depth
      inferInstanceAs (EntryStore.InWords τ (Merging τ (Stack τ depth)))

def Call.actionInWords {σ : Type} [EntryStore τ σ] [EntryStore.InWords τ σ] :
    Call τ → Sim τ σ τ
  | insert entries => EntryStore.InWords.insert entries
  | bulkload entries => EntryStore.InWords.bulkload entries
  | find lookup entries repeats => EntryStore.InWords.find lookup entries repeats
  | findShare lookup share repeats => EntryStore.findShareInWords lookup share repeats
  | delete entries => EntryStore.InWords.delete entries
  | access kind bytes => Sim.inWords (Sim.access kind bytes)
  | resetLedgers => do
      resetDisk
      return Scalar.zero

namespace Index

def callInWords (index : Index τ) (call : Call τ) :
    Except Fault (Except (Error τ) τ × Index τ) :=
  index.perform call.actionInWords

def runInWords (index : Index τ) :
    List (Call τ) → Except Fault (List (Except (Error τ) τ) × Index τ)
  | [] => .ok ([], index)
  | first :: rest => do
      let (result, index) ← index.callInWords first
      let (results, index) ← index.runInWords rest
      return (result :: results, index)

end Index

end MergeCost
