import MergeCost.Simulation.Composed
import MergeCost.Simulation.Yields

/-!
Remarks are the debug events of merging in a log. A run is silent if it makes none; accesses to the
disk are logged, but they are no remarks.
-/

namespace MergeCost

variable {τ σ ρ α β : Type}

/-- Whether an event tells of cold data, as touches and passes of reorganization do. -/
def Event.isRemark (event : Event τ) : Bool := event.target = .merging && event.level = .debug

def Event.isPass : Event τ → Bool
  | reorganized .. => true
  | _ => false

namespace Machine

def remarks (machine : Machine τ) : List (Event τ) := machine.log.toList.filter Event.isRemark

theorem remarks_emit (machine : Machine τ) {event : Event τ} (remark : event.isRemark) :
    (machine.emit event).remarks = machine.remarks ++ [event] := by
  simp [remarks, emit, List.filter_cons_of_pos remark]

theorem remarks_access [Scalar τ] (machine : Machine τ) (kind : Access) (bytes : Nat) :
    (machine.access kind bytes).2.remarks = machine.remarks := by
  by_cases none : bytes = 0
  · simp [access, none]
  · simp [access, none, remarks, Event.isRemark, Event.target]

end Machine

namespace Sim

def Silent (action : Sim τ σ α) : Prop :=
  ∀ world, action.Yields world fun _ after => after.machine.remarks = world.machine.remarks

namespace Silent

theorem pure (value : α) : (Pure.pure value : Sim τ σ α).Silent :=
  fun _ => (yields_pure _ _).mpr rfl

theorem store : (Sim.store : Sim τ σ σ).Silent := fun _ => (yields_store _).mpr rfl

theorem disk : (Sim.disk : Sim τ σ (Disk τ)).Silent := fun _ => (yields_disk _).mpr rfl

theorem crash (fault : Fault) : (Sim.crash fault : Sim τ σ α).Silent := fun _ => yields_crash _ _

theorem throw (error : Error τ) : (MonadExcept.throw error : Sim τ σ α).Silent :=
  fun _ => yields_throw _ _

theorem update (change : σ → σ) : (Sim.update change : Sim τ σ Unit).Silent :=
  fun _ => (yields_update _ _).mpr rfl

theorem access [Scalar τ] (kind : Access) (bytes : Nat) :
    (Sim.access kind bytes : Sim τ σ τ).Silent :=
  fun world => (yields_access _ _ _).mpr (world.machine.remarks_access kind bytes)

theorem bind {first : Sim τ σ α} {next : α → Sim τ σ β} (start : first.Silent)
    (rest : ∀ value, (next value).Silent) : (first >>= next).Silent := by
  intro world
  rw [yields_bind]
  refine (start world).mono ?_
  intro value between same
  exact (rest value between).mono fun _ _ more => more.trans same

theorem zoom {inner : Sim τ σ α} (silent : inner.Silent) (part : ρ → σ) (replace : σ → ρ → ρ) :
    (Sim.zoom part replace inner : Sim τ ρ α).Silent :=
  fun _ => (yields_zoom ..).mpr (silent _)

end Silent

/-- Where no events are emitted but those of accesses, there are no remarks. -/
theorem Composed.silent [Scalar τ] {action : Sim τ σ α}
    (composed : action.Composed fun _ => False) : action.Silent := by
  induction composed with
  | pure value => exact .pure value
  | throw error => exact .throw error
  | crash fault => exact .crash fault
  | store => exact .store
  | update change => exact .update change
  | emit told => exact told.elim
  | access kind bytes => exact .access kind bytes
  | bind _ _ first rest => exact first.bind rest
  | disk_bind _ _ rest => exact Silent.disk.bind rest
  | zoom _ part replace silent => exact silent.zoom part replace

end Sim

end MergeCost
