import MergeCost.Index.Stack

/-!
Calls on an index as values, so that runs are lists of calls.
-/

namespace MergeCost

inductive Call (τ : Type) where
  | insert (entries : Nat)
  | bulkload (entries : Nat)
  | find (lookup : Lookup) (entries repeats : Nat)
  | findShare (lookup : Lookup) (share : τ) (repeats : Nat)
  | delete (entries : Nat)
  /-- An access to the disk past the index. -/
  | access (kind : Access) (bytes : Nat)
  | resetLedgers
deriving Repr

namespace Call

variable {τ σ : Type}

/-- Calls that go to the index and not to the disk alone. -/
def isRequest : Call τ → Bool
  | access .. | resetLedgers => false
  | _ => true

variable [Scalar τ] [EntryStore τ σ]

def resetDisk : Sim τ σ Unit :=
  modify fun world =>
    { world with machine := { world.machine with disk := world.machine.disk.resetLedgers } }

/-- What a call does; it gives the time that it takes. -/
def action : Call τ → Sim τ σ τ
  | insert entries => EntryStore.insert entries
  | bulkload entries => EntryStore.bulkload entries
  | find lookup entries repeats => EntryStore.find lookup entries repeats
  | findShare lookup share repeats => EntryStore.findShare lookup share repeats
  | delete entries => EntryStore.delete entries
  | access kind bytes => Sim.access kind bytes
  | resetLedgers => do
      resetDisk
      return Scalar.zero

end Call

namespace Index

variable {τ : Type} [Scalar τ]

def call (index : Index τ) (call : Call τ) : Except Fault (Except (Error τ) τ × Index τ) :=
  index.perform call.action

/-- Makes calls one after the other, and lists their results. -/
def run (index : Index τ) : List (Call τ) → Except Fault (List (Except (Error τ) τ) × Index τ)
  | [] => .ok ([], index)
  | first :: rest => do
      let (result, index) ← index.call first
      let (results, index) ← index.run rest
      return (result :: results, index)

end Index

end MergeCost
