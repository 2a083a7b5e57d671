import MergeCost.Simulation

/-!
What a run comes to, step by step. `Sim.outcome` is the view of a run; each way to build a run has
one lemma about it, and a sequence of runs is taken apart by `Sim.after`.
-/

namespace MergeCost

theorem Except.exists_of_bind {ε α β : Type} {first : Except ε α} {next : α → Except ε β}
    {result : β} (ended : first >>= next = .ok result) :
    ∃ value, first = .ok value ∧ next value = .ok result := by
  cases first with
  | error refusal => cases ended
  | ok value => exact ⟨value, rfl, ended⟩

end MergeCost

namespace MergeCost.Sim

variable {τ σ ρ α β : Type}

/-- Goes on after the first part of a run, unless that was refused or broke off. -/
def after (next : α → World τ σ → Outcome τ σ β) : Outcome τ σ α → Outcome τ σ β
  | .error fault => .error fault
  | .ok (.error error, world) => .ok (.error error, world)
  | .ok (.ok value, world) => next value world

@[simp] theorem after_ok (next : α → World τ σ → Outcome τ σ β) (value : α) (world : World τ σ) :
    after next (.ok (.ok value, world)) = next value world := rfl

@[simp] theorem after_refused (next : α → World τ σ → Outcome τ σ β) (error : Error τ)
    (world : World τ σ) : after next (.ok (.error error, world)) = .ok (.error error, world) := rfl

@[simp] theorem after_fault (next : α → World τ σ → Outcome τ σ β) (fault : Fault) :
    after next (.error fault) = .error fault := rfl

/-- A run that ends well did so after a first part that ended well. -/
theorem after_eq_ok_iff {next : α → World τ σ → Outcome τ σ β} {first : Outcome τ σ α} {value : β}
    {world : World τ σ} :
    after next first = .ok (.ok value, world) ↔
      ∃ middle between, first = .ok (.ok middle, between) ∧
        next middle between = .ok (.ok value, world) := by
  constructor
  · intro ended
    rcases first with fault | ⟨error | middle, between⟩
    · simp at ended
    · simp at ended
    · exact ⟨middle, between, rfl, ended⟩
  · rintro ⟨middle, between, rfl, rest⟩
    exact rest

@[simp] theorem outcome_pure (value : α) (world : World τ σ) :
    outcome (pure value : Sim τ σ α) world = .ok (.ok value, world) := rfl

@[simp] theorem outcome_bind (action : Sim τ σ α) (next : α → Sim τ σ β) (world : World τ σ) :
    outcome (action >>= next) world =
      after (fun value => outcome (next value)) (outcome action world) := by
  change Except.bind (action world) _ = after _ (action world)
  rcases action world with fault | ⟨error | value, between⟩ <;> rfl

/-- What both branches of a choice go on with can be said after the choice. -/
theorem branches_bind {choice : Prop} [Decidable choice] (first second : Sim τ σ α)
    (next : α → Sim τ σ β) :
    (if choice then first >>= next else second >>= next) =
      ((if choice then first else second) >>= next) := by
  split <;> rfl

@[simp] theorem outcome_throw (error : Error τ) (world : World τ σ) :
    outcome (throw error : Sim τ σ α) world = .ok (.error error, world) := rfl

@[simp] theorem outcome_store (world : World τ σ) :
    outcome (store : Sim τ σ σ) world = .ok (.ok world.store, world) := rfl

@[simp] theorem outcome_disk (world : World τ σ) :
    outcome (disk : Sim τ σ (Disk τ)) world = .ok (.ok world.machine.disk, world) := rfl

@[simp] theorem outcome_update (change : σ → σ) (world : World τ σ) :
    outcome (update change : Sim τ σ Unit) world =
      .ok (.ok (), ⟨change world.store, world.machine⟩) := rfl

@[simp] theorem outcome_crash (fault : Fault) (world : World τ σ) :
    outcome (crash fault : Sim τ σ α) world = .error fault := rfl

@[simp] theorem outcome_orCrash_ok (value : α) (world : World τ σ) :
    outcome (orCrash (.ok value) : Sim τ σ α) world = .ok (.ok value, world) := rfl

@[simp] theorem outcome_orCrash_error (fault : Fault) (world : World τ σ) :
    outcome (orCrash (.error fault) : Sim τ σ α) world = .error fault := rfl

@[simp] theorem outcome_emit [Scalar τ] (event : Event τ) (world : World τ σ) :
    outcome (emit event : Sim τ σ Unit) world =
      .ok (.ok (), ⟨world.store, world.machine.emit event⟩) := rfl

@[simp] theorem outcome_access [Scalar τ] (kind : Access) (bytes : Nat) (world : World τ σ) :
    outcome (access kind bytes : Sim τ σ τ) world =
      .ok (.ok (world.machine.access kind bytes).1,
        ⟨world.store, (world.machine.access kind bytes).2⟩) := rfl

theorem outcome_zoom (part : ρ → σ) (replace : σ → ρ → ρ) (action : Sim τ σ α)
    (world : World τ ρ) :
    outcome (zoom part replace action) world =
      (outcome action ⟨part world.store, world.machine⟩).map fun done =>
        (done.1, ⟨replace done.2.store world.store, done.2.machine⟩) := rfl

theorem outcome_inWords {action : Sim τ σ α} {world after : World τ σ}
    {result : Except (Error τ) α} (ran : outcome action world = .ok (result, after)) :
    outcome (inWords action) world =
      if after.machine.disk.Fits then .ok (result, after) else .error .overflow := by
  change Except.bind (outcome action world) _ = _
  rw [ran]
  rfl

end MergeCost.Sim
