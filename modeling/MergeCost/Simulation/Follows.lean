import MergeCost.Simulation.Outcome

/-!
Runs that follow others. A run in words does what the run over natural numbers does, up to where it
may break off; this is kept by all ways in which runs are composed.
-/

namespace MergeCost.Sim

variable {τ σ ρ α β : Type}

/-- From every world the run comes to the same as another one, unless it breaks off for an
overflow. -/
def Follows (inWords exact : Sim τ σ α) : Prop :=
  ∀ world, outcome inWords world = outcome exact world ∨ outcome inWords world = .error .overflow

namespace Follows

theorem refl (action : Sim τ σ α) : action.Follows action := fun _ => .inl rfl

theorem bind {inWords exact : Sim τ σ α} {next nextExact : α → Sim τ σ β}
    (first : inWords.Follows exact) (rest : ∀ value, (next value).Follows (nextExact value)) :
    (inWords >>= next).Follows (exact >>= nextExact) := by
  intro world
  rw [outcome_bind, outcome_bind]
  rcases first world with same | broken
  · rw [same]
    rcases outcome exact world with fault | ⟨error | value, between⟩
    · exact .inl rfl
    · exact .inl rfl
    · exact rest value between
  · rw [broken]
    exact .inr rfl

/-- A run may look at its store once more than the one it follows. -/
theorem store_bind {next : σ → Sim τ σ α} {exact : Sim τ σ α}
    (rest : ∀ store, (next store).Follows exact) : (store >>= next).Follows exact :=
  fun world => rest world.store world

/-- It may also break off for what it counts. -/
theorem orCrash_bind {step : Except Fault β} {value : β} {next : β → Sim τ σ α} {exact : Sim τ σ α}
    (counted : step = .ok value ∨ step = .error .overflow) (rest : (next value).Follows exact) :
    (orCrash step >>= next).Follows exact := by
  rcases counted with rfl | rfl
  · exact rest
  · exact fun _ => .inr rfl

theorem inWords (action : Sim τ σ α) : (Sim.inWords action).Follows action := by
  intro world
  rcases ran : outcome action world with fault | ⟨result, after⟩
  · left
    change Except.bind (outcome action world) _ = _
    rw [ran]
    rfl
  · rw [outcome_inWords ran]
    split
    · exact .inl rfl
    · exact .inr rfl

theorem ite {choice : Prop} [Decidable choice] {first second firstExact secondExact : Sim τ σ α}
    (chosen : first.Follows firstExact) (other : second.Follows secondExact) :
    (if choice then first else second).Follows (if choice then firstExact else secondExact) := by
  split
  · exact chosen
  · exact other

theorem zoom {inWords exact : Sim τ σ α} (follows : inWords.Follows exact) (part : ρ → σ)
    (replace : σ → ρ → ρ) :
    (Sim.zoom part replace inWords).Follows (Sim.zoom part replace exact) := by
  intro world
  rw [outcome_zoom, outcome_zoom]
  rcases follows ⟨part world.store, world.machine⟩ with same | broken
  · exact .inl (congrArg _ same)
  · rw [broken]
    exact .inr rfl

theorem foldlM {step exact : α → β → Sim τ σ α}
    (follows : ∀ value item, (step value item).Follows (exact value item)) (items : List β)
    (value : α) : (items.foldlM step value).Follows (items.foldlM exact value) := by
  induction items generalizing value with
  | nil => exact .refl _
  | cons item rest ih =>
      rw [List.foldlM_cons, List.foldlM_cons]
      exact (follows value item).bind ih

end Follows

end MergeCost.Sim
