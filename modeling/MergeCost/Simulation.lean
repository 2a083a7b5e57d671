import MergeCost.Disk
import MergeCost.Event

/-!
Simulated runs. A run works on a store of its own and on the machine that it shares with all parts
of an index: the disk, and the log of events. It ends in a result or in an error, in either case
with a store and a machine, or it breaks off in a fault.

`Sim.zoom` places a run on a part of a store, such as the index wrapped by another one, and
`Sim.inWords` lets it break off where the counts of the disk grow too large for words.
-/

namespace MergeCost

/-- The disk and the events so far. -/
structure Machine (τ : Type) where
  disk : Disk τ
  log : Array (Event τ)
deriving Repr

namespace Machine

variable {τ : Type} [Scalar τ]

def create (disk : Disk τ) : Machine τ := ⟨disk, #[]⟩

def emit (machine : Machine τ) (event : Event τ) : Machine τ :=
  { machine with log := machine.log.push event }

/-- Accesses the disk. An access of at least one byte is reported. -/
def access (machine : Machine τ) (access : Access) (bytes : Nat) : τ × Machine τ :=
  let (time, disk) := machine.disk.access access bytes
  if bytes = 0 then (time, machine)
  else (time, {
    disk
    log := machine.log.push (.accessed machine.disk.device.name access bytes time) })

end Machine

/-- What a run works on. -/
structure World (τ σ : Type) where
  store : σ
  machine : Machine τ

/-- A run on a store of type `σ` that gives a value of type `α`. -/
abbrev Sim (τ σ α : Type) : Type := ExceptT (Error τ) (StateT (World τ σ) (Except Fault)) α

namespace Sim

variable {τ σ ρ α : Type}

/-- The result or error of a run, and what it leaves behind. -/
abbrev Outcome (τ σ α : Type) : Type := Except Fault (Except (Error τ) α × World τ σ)

def outcome (action : Sim τ σ α) (world : World τ σ) : Outcome τ σ α := action.run.run world

def store : Sim τ σ σ := return (← get).store

def update (change : σ → σ) : Sim τ σ Unit :=
  modify fun world => { world with store := change world.store }

def disk : Sim τ σ (Disk τ) := return (← get).machine.disk

def emit [Scalar τ] (event : Event τ) : Sim τ σ Unit :=
  modify fun world => { world with machine := world.machine.emit event }

/-- Accesses the disk and gives the time that it takes. -/
def access [Scalar τ] (access : Access) (bytes : Nat) : Sim τ σ τ :=
  modifyGet fun world =>
    let (time, machine) := world.machine.access access bytes
    (time, { world with machine })

def crash (fault : Fault) : Sim τ σ α :=
  ExceptT.lift (StateT.lift (.error fault))

/-- Breaks off if a pure step does. -/
def orCrash (step : Except Fault α) : Sim τ σ α := ExceptT.lift (StateT.lift step)

/-- Runs on a part of the store. -/
def zoom (part : ρ → σ) (replace : σ → ρ → ρ) (action : Sim τ σ α) : Sim τ ρ α :=
  ExceptT.mk fun world => do
    let (result, after) ← action.run.run ⟨part world.store, world.machine⟩
    return (result, ⟨replace after.store world.store, after.machine⟩)

/-- A run in words. What the disk counts only grows, so that it breaks off if the disk has counted
more in the end than fits into words. -/
def inWords (action : Sim τ σ α) : Sim τ σ α :=
  ExceptT.mk fun world => do
    let (result, after) ← action.run.run world
    if after.machine.disk.Fits then return (result, after) else .error .overflow

/-- Takes a step over and over, each from the value of the one before. -/
def iterate (step : α → Sim τ σ α) : Nat → α → Sim τ σ α
  | 0, value => pure value
  | count + 1, value => step value >>= iterate step count

/-- Repeats a run and adds its times to a total, one after the other. -/
def addTimes [Scalar τ] (action : Sim τ σ τ) (count : Nat) (total : τ) : Sim τ σ τ :=
  iterate (fun total => return total + (← action)) count total

end Sim

end MergeCost
