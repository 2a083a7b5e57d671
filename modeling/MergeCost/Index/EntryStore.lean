import MergeCost.Simulation
import MergeCost.Ledger.OperationLedger

/-!
What every index offers, whatever it is built from: its dimensions, its ledger, and the requests.
-/

namespace MergeCost

/-- How a request meets the entries: one by one, or as a run of neighbours. -/
inductive Lookup where
  | point
  | range
deriving Repr, DecidableEq

def Lookup.request : Lookup → Request
  | .point => .findPoint
  | .range => .findRange

/-- Stores of entries that take requests. Each request gives the time that it takes; requests for
no entries take none and change nothing. -/
class EntryStore (τ : outParam Type) (σ : Type) where
  name : σ → String
  entries : σ → Nat
  keySize : σ → Nat
  dataSize : σ → Nat
  canBulkload : σ → Bool
  ledger : σ → OperationLedger τ
  insert : Nat → Sim τ σ τ
  bulkload : Nat → Sim τ σ τ
  /-- Finds a number of entries, and all of them again for each further repeat. -/
  find : Lookup → Nat → Nat → Sim τ σ τ
  delete : Nat → Sim τ σ τ

namespace EntryStore

variable {τ σ : Type} [EntryStore τ σ]

def recordSize (store : σ) : Nat := keySize store + dataSize store

end EntryStore

/-- The number of entries that a share of all entries covers, to the nearest entry. -/
def entriesOfShare {τ : Type} [Scalar τ] (entries : Nat) (share : τ) : Except (Error τ) Nat :=
  if Scalar.le Scalar.zero share && Scalar.le share (Scalar.ofNat 1) then
    .ok (Scalar.round (share * Scalar.ofNat entries))
  else .error (.argument (.selectivity share entries))

/-- Finds a share of all entries. -/
def EntryStore.findShare {τ σ : Type} [Scalar τ] [EntryStore τ σ] (lookup : Lookup) (share : τ)
    (repeats : Nat) : Sim τ σ τ := do
  match entriesOfShare (entries (← Sim.store)) share with
  | .ok count => find lookup count repeats
  | .error refusal => throw refusal

end MergeCost
