import MergeCost.Simulation.Outcome

/-!
How runs are composed. Whatever the parts of an index do, they do it by reading and changing their
store, by accesses to the disk, by events, and by ending early; of the disk they see the device
alone. What is to be shown of all runs is shown by induction on how they are composed.
-/

namespace MergeCost

def Event.IsMerging {τ : Type} (event : Event τ) : Prop := event.target = .merging

namespace Sim

/-- Runs that are composed of the parts of the simulator, and emit no other events than these on
their own. -/
inductive Composed {τ : Type} [Scalar τ] (tells : Event τ → Prop) :
    {σ α : Type} → Sim τ σ α → Prop
  | pure {σ α : Type} (value : α) : Composed tells (Pure.pure value : Sim τ σ α)
  | throw {σ α : Type} (error : Error τ) : Composed tells (MonadExcept.throw error : Sim τ σ α)
  | crash {σ α : Type} (fault : Fault) : Composed tells (Sim.crash fault : Sim τ σ α)
  | store {σ : Type} : Composed tells (Sim.store : Sim τ σ σ)
  | update {σ : Type} (change : σ → σ) : Composed tells (Sim.update change : Sim τ σ Unit)
  | emit {σ : Type} {event : Event τ} (told : tells event) :
      Composed tells (Sim.emit event : Sim τ σ Unit)
  | access {σ : Type} (kind : Access) (bytes : Nat) :
      Composed tells (Sim.access kind bytes : Sim τ σ τ)
  | bind {σ α β : Type} {action : Sim τ σ α} {next : α → Sim τ σ β} (first : Composed tells action)
      (rest : ∀ value, Composed tells (next value)) : Composed tells (action >>= next)
  /-- A look at the disk, for the sake of its device. -/
  | disk_bind {σ β : Type} {next : Disk τ → Sim τ σ β}
      (same : ∀ first second : Disk τ, first.device = second.device → next first = next second)
      (rest : ∀ disk, Composed tells (next disk)) : Composed tells (Sim.disk >>= next)
  | zoom {ρ σ α : Type} {inner : Sim τ σ α} (composed : Composed tells inner) (part : ρ → σ)
      (replace : σ → ρ → ρ) : Composed tells (Sim.zoom part replace inner)

namespace Composed

variable {τ σ α β : Type} [Scalar τ] {tells : Event τ → Prop}

theorem orCrash (step : Except Fault α) : (Sim.orCrash step : Sim τ σ α).Composed tells := by
  cases step with
  | error fault => exact .crash fault
  | ok value => exact .pure value

theorem ite {choice : Prop} [Decidable choice] {first second : Sim τ σ α}
    (chosen : first.Composed tells) (other : second.Composed tells) :
    (if choice then first else second).Composed tells := by
  split
  · exact chosen
  · exact other

theorem unlessZero (count : Nat) (value : α) {action : Sim τ σ α}
    (composed : action.Composed tells) :
    (if count = 0 then Pure.pure value else action).Composed tells :=
  .ite (.pure value) composed

theorem iterate {step : α → Sim τ σ α} (composed : ∀ value, (step value).Composed tells)
    (count : Nat) (value : α) : (Sim.iterate step count value).Composed tells := by
  induction count generalizing value with
  | zero => exact .pure value
  | succ count ih => exact (composed value).bind ih

theorem addTimes {action : Sim τ σ τ} (composed : action.Composed tells) (count : Nat)
    (total : τ) : (Sim.addTimes action count total).Composed tells :=
  iterate (fun total => composed.bind fun time => .pure (total + time)) count total

theorem foldlM {step : α → β → Sim τ σ α}
    (composed : ∀ value item, (step value item).Composed tells) (items : List β) (value : α) :
    (items.foldlM step value).Composed tells := by
  induction items generalizing value with
  | nil => exact .pure value
  | cons item rest ih =>
      rw [List.foldlM_cons]
      exact (composed value item).bind ih

end Composed

end Sim

end MergeCost
