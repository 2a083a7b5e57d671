import MergeCost.Ledger.OperationCounter
import MergeCost.Ledger.Sample
import MergeCost.Rounding

/-!
The ledger of an index: time and number of its operations. The totals are those of the requests
alone, since the parts of a touch are contained in them.
-/

namespace MergeCost

structure Tally (τ : Type) where
  time : τ
  operations : Nat
deriving Repr, BEq

namespace Tally

variable {τ : Type} [Scalar τ]

def empty : Tally τ := ⟨Scalar.zero, 0⟩

def record (tally : Tally τ) (time : τ) (operations : Nat) : Tally τ :=
  ⟨tally.time + time, tally.operations + operations⟩

def averageTime (tally : Tally τ) : τ :=
  if tally.operations = 0 then Scalar.zero else tally.time / Scalar.ofNat tally.operations

end Tally

structure OperationLedger (τ : Type) where
  insert : Tally τ
  bulkload : Tally τ
  findPoint : Tally τ
  findRange : Tally τ
  delete : Tally τ
  invalidation : Tally τ
  loading : Tally τ
deriving Repr, BEq

namespace OperationLedger

variable {τ : Type}

def tally (ledger : OperationLedger τ) : Operation → Tally τ
  | .request .insert => ledger.insert
  | .request .bulkload => ledger.bulkload
  | .request .findPoint => ledger.findPoint
  | .request .findRange => ledger.findRange
  | .request .delete => ledger.delete
  | .invalidation => ledger.invalidation
  | .loading => ledger.loading

def modify (ledger : OperationLedger τ) (operation : Operation) (change : Tally τ → Tally τ) :
    OperationLedger τ :=
  match operation with
  | .request .insert => { ledger with insert := change ledger.insert }
  | .request .bulkload => { ledger with bulkload := change ledger.bulkload }
  | .request .findPoint => { ledger with findPoint := change ledger.findPoint }
  | .request .findRange => { ledger with findRange := change ledger.findRange }
  | .request .delete => { ledger with delete := change ledger.delete }
  | .invalidation => { ledger with invalidation := change ledger.invalidation }
  | .loading => { ledger with loading := change ledger.loading }

theorem tally_modify (ledger : OperationLedger τ) (operation other : Operation)
    (change : Tally τ → Tally τ) :
    (ledger.modify operation change).tally other =
      if other = operation then change (ledger.tally operation) else ledger.tally other := by
  rcases operation with (_ | _ | _ | _ | _) | _ | _ <;>
    rcases other with (_ | _ | _ | _ | _) | _ | _ <;> rfl

variable [Scalar τ]

def empty : OperationLedger τ := ⟨.empty, .empty, .empty, .empty, .empty, .empty, .empty⟩

def record (ledger : OperationLedger τ) (operation : Operation) (time : τ) (operations : Nat) :
    OperationLedger τ :=
  ledger.modify operation (Tally.record · time operations)

def requests (ledger : OperationLedger τ) : List (Tally τ) :=
  Request.all.map fun request => ledger.tally (.request request)

def value (ledger : OperationLedger τ) : OperationCounter → Reading τ
  | .time operation => .time (ledger.tally operation).time
  | .operations operation => .count (ledger.tally operation).operations
  | .totalTime => .time (Scalar.sum (ledger.requests.map Tally.time))
  | .totalOperations => .count (total (ledger.requests.map Tally.operations))
  | .averageTime request => .time (ledger.tally (.request request)).averageTime

def snapshot (ledger : OperationLedger τ) : List (Sample τ) :=
  OperationCounter.all.map fun counter => ⟨counter.name, ledger.value counter⟩

end OperationLedger

end MergeCost
