import MergeCost.Simulation.Outcome

/-!
What a run yields if it ends well. Each way to build a run has one rule, so that what holds after a
run comes down to what holds before it.
-/

namespace MergeCost.Sim

variable {τ σ ρ α β : Type} {world : World τ σ}

/-- If the run ends well, then in a value and a world of this kind. -/
def Yields (action : Sim τ σ α) (world : World τ σ) (post : α → World τ σ → Prop) : Prop :=
  ∀ value after, outcome action world = .ok (.ok value, after) → post value after

theorem Yields.mono {action : Sim τ σ α} {post weaker : α → World τ σ → Prop}
    (yields : action.Yields world post)
    (weaken : ∀ value after, post value after → weaker value after) :
    action.Yields world weaker :=
  fun value after ended => weaken value after (yields value after ended)

/-- A run that is known to end well yields what it ends in. -/
theorem yields_of_outcome {action : Sim τ σ α} {value : α} {after : World τ σ}
    (ended : outcome action world = .ok (.ok value, after)) (post : α → World τ σ → Prop) :
    action.Yields world post ↔ post value after := by
  constructor
  · intro yields
    exact yields value after ended
  · intro holds other left same
    rw [ended] at same
    cases same
    exact holds

@[simp] theorem yields_pure (value : α) (post : α → World τ σ → Prop) :
    (pure value : Sim τ σ α).Yields world post ↔ post value world :=
  yields_of_outcome (outcome_pure value world) post

@[simp] theorem yields_bind (first : Sim τ σ α) (next : α → Sim τ σ β)
    (post : β → World τ σ → Prop) :
    (first >>= next).Yields world post ↔
      first.Yields world fun value after => (next value).Yields after post := by
  constructor
  · intro yields middle between started value after ended
    apply yields value after
    rw [outcome_bind, started, after_ok, ended]
  · intro yields value after ended
    rw [outcome_bind, after_eq_ok_iff] at ended
    obtain ⟨middle, between, started, rest⟩ := ended
    exact yields middle between started value after rest

@[simp] theorem yields_store (post : σ → World τ σ → Prop) :
    (store : Sim τ σ σ).Yields world post ↔ post world.store world :=
  yields_of_outcome (outcome_store world) post

@[simp] theorem yields_disk (post : Disk τ → World τ σ → Prop) :
    (disk : Sim τ σ (Disk τ)).Yields world post ↔ post world.machine.disk world :=
  yields_of_outcome (outcome_disk world) post

@[simp] theorem yields_update (change : σ → σ) (post : Unit → World τ σ → Prop) :
    (update change : Sim τ σ Unit).Yields world post ↔
      post () ⟨change world.store, world.machine⟩ :=
  yields_of_outcome (outcome_update change world) post

@[simp] theorem yields_emit [Scalar τ] (event : Event τ) (post : Unit → World τ σ → Prop) :
    (emit event : Sim τ σ Unit).Yields world post ↔
      post () ⟨world.store, world.machine.emit event⟩ :=
  yields_of_outcome (outcome_emit event world) post

@[simp] theorem yields_access [Scalar τ] (kind : Access) (bytes : Nat)
    (post : τ → World τ σ → Prop) :
    (access kind bytes : Sim τ σ τ).Yields world post ↔
      post (world.machine.access kind bytes).1
        ⟨world.store, (world.machine.access kind bytes).2⟩ :=
  yields_of_outcome (outcome_access kind bytes world) post

@[simp] theorem yields_crash (fault : Fault) (post : α → World τ σ → Prop) :
    (crash fault : Sim τ σ α).Yields world post := by
  intro value after ended
  cases ended

@[simp] theorem yields_throw (error : Error τ) (post : α → World τ σ → Prop) :
    (throw error : Sim τ σ α).Yields world post := by
  intro value after ended
  cases ended

theorem yields_orCrash (step : Except Fault α) (post : α → World τ σ → Prop) :
    (orCrash step : Sim τ σ α).Yields world post ↔
      ∀ value, step = .ok value → post value world := by
  cases step with
  | error fault => simp [Yields]
  | ok found => simp [yields_of_outcome (outcome_orCrash_ok found world)]

theorem yields_zoom {world : World τ ρ} (part : ρ → σ) (replace : σ → ρ → ρ) (action : Sim τ σ α)
    (post : α → World τ ρ → Prop) :
    (zoom part replace action).Yields world post ↔
      action.Yields ⟨part world.store, world.machine⟩ fun value after =>
        post value ⟨replace after.store world.store, after.machine⟩ := by
  constructor
  · intro yields value after ended
    apply yields
    rw [outcome_zoom, ended]
    rfl
  · intro yields value after ended
    rw [outcome_zoom] at ended
    cases inner : outcome action ⟨part world.store, world.machine⟩ with
    | error fault => simp [inner, Except.map] at ended
    | ok done =>
        obtain ⟨result, left⟩ := done
        rw [inner] at ended
        cases ended
        exact yields value left inner

theorem yields_ite {choice : Prop} [Decidable choice] (first second : Sim τ σ α)
    (post : α → World τ σ → Prop) :
    (if choice then first else second).Yields world post ↔
      (choice → first.Yields world post) ∧ (¬choice → second.Yields world post) := by
  by_cases chosen : choice <;> simp [chosen]

/-- What each step of a fold keeps, the fold keeps. -/
theorem yields_foldlM {step : α → β → Sim τ σ α} {holds : α → World τ σ → Prop}
    (each : ∀ item value world, holds value world → (step value item).Yields world holds)
    {items : List β} {value : α} {world : World τ σ} (start : holds value world) :
    (items.foldlM step value).Yields world holds := by
  induction items generalizing value world with
  | nil => exact (yields_pure value holds).mpr start
  | cons item rest ih =>
      rw [List.foldlM_cons, yields_bind]
      exact (each item value world start).mono fun next after kept => ih kept

theorem yields_iterate {step : α → Sim τ σ α} {holds : α → World τ σ → Prop}
    (each : ∀ value world, holds value world → (step value).Yields world holds) (count : Nat)
    {value : α} {world : World τ σ} (start : holds value world) :
    (iterate step count value).Yields world holds := by
  induction count generalizing value world with
  | zero => exact (yields_pure value holds).mpr start
  | succ count ih =>
      rw [iterate, yields_bind]
      exact (each value world start).mono fun next after kept => ih kept

end MergeCost.Sim
