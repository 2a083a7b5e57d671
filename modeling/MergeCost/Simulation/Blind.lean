import MergeCost.Simulation.Composed

/-!
Runs that do not see the ledgers of the disk. On machines that differ in nothing else, such a run
comes to the same result and leaves the same store, and the machines still differ in nothing else.
Each way to compose a run has one rule.
-/

namespace MergeCost

/-- Machines with one device and one log: they differ at most in the ledgers of their disks. -/
structure Machine.Alike {τ : Type} (left right : Machine τ) : Prop where
  device_eq : left.disk.device = right.disk.device
  log_eq : left.log = right.log

namespace Machine.Alike

variable {τ : Type} {first second : Machine τ}

theorem refl (machine : Machine τ) : machine.Alike machine := ⟨rfl, rfl⟩

theorem emit [Scalar τ] (alike : first.Alike second) (event : Event τ) :
    (first.emit event).Alike (second.emit event) :=
  ⟨alike.device_eq, congrArg (·.push event) alike.log_eq⟩

/-- An access takes the same time, whatever the ledgers hold. -/
theorem access [Scalar τ] (alike : first.Alike second) (kind : Access) (bytes : Nat) :
    (first.access kind bytes).1 = (second.access kind bytes).1 ∧
      (first.access kind bytes).2.Alike (second.access kind bytes).2 := by
  have device := alike.device_eq
  have log := alike.log_eq
  by_cases none : bytes = 0
  · subst none
    exact ⟨rfl, alike⟩
  · simp only [Machine.access, Disk.access, if_neg none, device, log]
    exact ⟨trivial, rfl, rfl⟩

end Machine.Alike

namespace Sim

variable {τ σ ρ α β : Type}

/-- Two runs that come to the same on machines that are alike. -/
inductive Matches : Outcome τ σ α → Outcome τ σ α → Prop
  | broken (fault : Fault) : Matches (.error fault) (.error fault)
  | ended (result : Except (Error τ) α) (store : σ) {left right : Machine τ}
      (alike : left.Alike right) :
      Matches (.ok (result, ⟨store, left⟩)) (.ok (result, ⟨store, right⟩))

theorem Matches.of_ok {result : Except (Error τ) α} {world : World τ σ} {other : Outcome τ σ α}
    (same : Matches (.ok (result, world)) other) :
    ∃ machine, other = .ok (result, ⟨world.store, machine⟩) ∧ world.machine.Alike machine := by
  cases same with
  | ended _ store alike => exact ⟨_, rfl, alike⟩

theorem Matches.after {first second : Outcome τ σ α} {next : α → World τ σ → Outcome τ σ β}
    (start : Matches first second)
    (rest : ∀ value store {left right : Machine τ}, left.Alike right →
      Matches (next value ⟨store, left⟩) (next value ⟨store, right⟩)) :
    Matches (Sim.after next first) (Sim.after next second) := by
  cases start with
  | broken fault => exact .broken fault
  | ended result store alike =>
      cases result with
      | error refusal => exact .ended (.error refusal) store alike
      | ok value => exact rest value store alike

theorem Matches.map {first second : Outcome τ σ α} (start : Matches first second)
    (replace : σ → ρ) :
    Matches (first.map fun done => (done.1, ⟨replace done.2.store, done.2.machine⟩))
      (second.map fun done => (done.1, ⟨replace done.2.store, done.2.machine⟩)) := by
  cases start with
  | broken fault => exact .broken fault
  | ended result store alike => exact .ended result (replace store) alike

def Blind (action : Sim τ σ α) : Prop :=
  ∀ (store : σ) {left right : Machine τ}, left.Alike right →
    Matches (outcome action ⟨store, left⟩) (outcome action ⟨store, right⟩)

namespace Blind

variable {action : Sim τ σ α} {next : α → Sim τ σ β}

theorem pure (value : α) : (Pure.pure value : Sim τ σ α).Blind :=
  fun store _ _ alike => .ended (.ok value) store alike

theorem throw (error : Error τ) : (MonadExcept.throw error : Sim τ σ α).Blind :=
  fun store _ _ alike => .ended (.error error) store alike

theorem crash (fault : Fault) : (Sim.crash fault : Sim τ σ α).Blind :=
  fun _ _ _ _ => .broken fault

theorem store : (Sim.store : Sim τ σ σ).Blind :=
  fun store _ _ alike => .ended (.ok store) store alike

theorem update (change : σ → σ) : (Sim.update change : Sim τ σ Unit).Blind :=
  fun store _ _ alike => .ended (.ok ()) (change store) alike

theorem emit [Scalar τ] (event : Event τ) : (Sim.emit event : Sim τ σ Unit).Blind :=
  fun store _ _ alike => .ended (.ok ()) store (alike.emit event)

theorem access [Scalar τ] (kind : Access) (bytes : Nat) :
    (Sim.access kind bytes : Sim τ σ τ).Blind := by
  intro store left right alike
  obtain ⟨time, still⟩ := alike.access kind bytes
  rw [outcome_access, outcome_access, time]
  exact .ended _ store still

theorem bind (first : action.Blind) (rest : ∀ value, (next value).Blind) :
    (action >>= next).Blind := by
  intro store left right alike
  rw [outcome_bind, outcome_bind]
  exact (first store alike).after rest

/-- A run may look at the disk as long as it only cares for the device. -/
theorem disk_bind {next : Disk τ → Sim τ σ β}
    (same : ∀ first second : Disk τ, first.device = second.device → next first = next second)
    (rest : ∀ disk, (next disk).Blind) : (Sim.disk >>= next).Blind := by
  intro store left right alike
  rw [outcome_bind, outcome_bind, outcome_disk, outcome_disk, after_ok, after_ok,
    same _ _ alike.device_eq]
  exact rest right.disk store alike

theorem zoom {inner : Sim τ σ α} (blind : inner.Blind) (part : ρ → σ) (replace : σ → ρ → ρ) :
    (Sim.zoom part replace inner).Blind := by
  intro store left right alike
  rw [outcome_zoom, outcome_zoom]
  exact (blind (part store) alike).map (replace · store)

end Blind

theorem Composed.blind [Scalar τ] {tells : Event τ → Prop} {action : Sim τ σ α}
    (composed : action.Composed tells) : action.Blind := by
  induction composed with
  | pure value => exact .pure value
  | throw error => exact .throw error
  | crash fault => exact .crash fault
  | store => exact .store
  | update change => exact .update change
  | @emit _ event => exact .emit event
  | access kind bytes => exact .access kind bytes
  | bind _ _ first rest => exact first.bind rest
  | disk_bind same _ rest => exact .disk_bind same rest
  | zoom _ part replace blind => exact blind.zoom part replace

end Sim

end MergeCost
