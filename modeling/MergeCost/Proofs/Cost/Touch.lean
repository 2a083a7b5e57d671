import MergeCost.Proofs.Cost.Spends

/-!
What touches cost. The two times of a touch, of either kind of store, are together what the machine
has spent on it, also where a pass of reorganization follows.
-/

namespace MergeCost

open Sim

namespace TouchCost

theorem time_empty : (empty : TouchCost Rat).time = 0 := by
  simp [empty, time, Scalar.zero, Scalar.ofNat]

/-- A fold of touches spends what the last cost has more than the first one. -/
theorem spends_of_steps {σ β : Type} {step : TouchCost Rat → β → Sim Rat σ (TouchCost Rat)}
    (each : ∀ cost item world, (step cost item).Yields world fun next after =>
      world.machine.Spends (next.time - cost.time) after.machine)
    (items : List β) (world : World Rat σ) :
    (items.foldlM step empty).Yields world fun cost after =>
      world.machine.Spends cost.time after.machine := by
  let holds (cost : TouchCost Rat) (after : World Rat σ) : Prop :=
    world.machine.Spends cost.time after.machine
  have start : holds empty world := by
    simpa only [holds, time_empty] using Machine.Spends.nothing world.machine
  refine yields_foldlM ?_ start
  intro item cost between spent
  refine (each cost item between).mono ?_
  intro next after more
  exact spent.trans more (by ring)

end TouchCost

namespace PartitionStore

theorem bytesOf_kept {τ : Type} (partition : Nat) (world : World τ PartitionStore) :
    (bytesOf partition).Yields world fun _ after => after = world := by
  simp only [bytesOf, yields_bind, yields_store]
  cases world.store.partitions[partition]? with
  | none => exact yields_crash _ _
  | some found => exact (yields_pure _ _).mpr rfl

theorem load_spends (partition : Nat) (world : World Rat PartitionStore) :
    (load partition).Yields world fun time after => world.machine.Spends time after.machine := by
  rw [load, yields_bind]
  refine (bytesOf_kept partition world).mono ?_
  rintro bytes _ rfl
  exact (yields_access _ _ _).mpr (.access _ _ _)

theorem take_kept (partition entries : Nat) (world : World Rat PartitionStore) :
    (take partition entries).Yields world fun _ after => after.machine = world.machine := by
  simp only [take, yields_bind, yields_store]
  cases world.store.partitions[partition]? with
  | none => exact yields_crash _ _
  | some found => simp only [yields_bind, yields_update, yields_pure]

theorem invalidate_spends (part : Located) (world : World Rat PartitionStore) :
    (invalidate part).Yields world fun time after =>
      world.machine.Spends time after.machine := by
  simp only [invalidate, yields_bind, yields_store]
  cases world.store.invalidation with
  | blockRewrite =>
      simp only [yields_bind]
      refine (bytesOf_kept part.partition world).mono ?_
      rintro bytes _ rfl
      simp only [yields_disk, yields_access]
      exact .access _ _ _
  | inPlace =>
      simp only [yields_bind, yields_access, yields_pure]
      exact .trans (.access _ _ _) (.access _ _ _) rfl

theorem touchOne_spends (cost : TouchCost Rat) (part : Located) (world : World Rat PartitionStore) :
    (touchOne cost part).Yields world fun next after =>
      world.machine.Spends (next.time - cost.time) after.machine := by
  simp only [touchOne, yields_bind]
  refine (invalidate_spends part world).mono ?_
  intro invalidation between invalidated
  refine (load_spends part.partition between).mono ?_
  intro loading later loaded
  refine (take_kept part.partition part.entries later).mono ?_
  intro taken after kept
  rw [yields_pure, kept]
  apply invalidated.trans loaded
  simp only [TouchCost.time]
  ring

theorem touch_spends (located : List Located) (world : World Rat PartitionStore) :
    (touch located).Yields world fun cost after =>
      world.machine.Spends cost.time after.machine ∧ (located = [] → cost.time = 0) := by
  cases located with
  | nil =>
      refine (yields_pure _ _).mpr ⟨?_, fun _ => TouchCost.time_empty⟩
      rw [TouchCost.time_empty]
      exact .nothing world.machine
  | cons part rest =>
      have some : part :: rest ≠ [] := List.cons_ne_nil part rest
      simp only [touch, List.isEmpty_cons, Bool.false_eq_true, if_false, yields_bind, yields_emit,
        yields_pure]
      refine (TouchCost.spends_of_steps touchOne_spends (part :: rest) world).mono ?_
      intro cost after spent
      exact ⟨spent.trans (.emit _ rfl) (add_zero _).symm, fun none => absurd none some⟩

end PartitionStore

namespace GroupedStore

theorem touchOne_spends (cost : TouchCost Rat) (part : Located)
    (world : World Rat (GroupedStore Rat)) :
    (touchOne cost part).Yields world fun next after =>
      world.machine.Spends (next.time - cost.time) after.machine := by
  simp only [touchOne, onBase, yields_bind, yields_zoom]
  refine (PartitionStore.load_spends part.partition _).mono ?_
  intro loading between loaded
  refine (PartitionStore.take_kept part.partition part.entries _).mono ?_
  intro taken after kept
  simp only [yields_update, yields_pure, kept]
  refine loaded.trans (.nothing _) ?_
  simp only [TouchCost.time]
  ring

theorem reorganize_spends (selected : List (EraseBlock × Nat)) (bins : List Bin)
    (world : World Rat (GroupedStore Rat)) :
    (reorganize selected bins).Yields world fun time after =>
      world.machine.Spends time after.machine := by
  simp only [reorganize, yields_bind, yields_store, yields_access, yields_ite, yields_update,
    yields_emit, yields_pure]
  refine ⟨fun _ => yields_crash _ _, fun _ => ?_⟩
  refine Machine.Spends.trans ?_ (.emit _ rfl) (add_zero _).symm
  exact .trans (.access _ _ _) (.access _ _ _) rfl

theorem touch_spends (located : List Located) (world : World Rat (GroupedStore Rat)) :
    (touch located).Yields world fun cost after =>
      world.machine.Spends cost.time after.machine ∧ (located = [] → cost.time = 0) := by
  cases located with
  | nil =>
      refine (yields_pure _ _).mpr ⟨?_, fun _ => TouchCost.time_empty⟩
      rw [TouchCost.time_empty]
      exact .nothing world.machine
  | cons part rest =>
      have some : part :: rest ≠ [] := List.cons_ne_nil part rest
      simp only [touch, List.isEmpty_cons, Bool.false_eq_true, if_false, yields_bind, yields_store]
      refine (TouchCost.spends_of_steps touchOne_spends (part :: rest) world).mono ?_
      intro cost between spent
      cases between.store.plan? with
      | none => exact (yields_pure _ _).mpr ⟨spent, fun none => absurd none some⟩
      | some plan =>
          simp only [yields_bind, yields_pure]
          refine (reorganize_spends plan.1 plan.2 between).mono ?_
          intro time after passed
          refine ⟨spent.trans passed ?_, fun none => absurd none some⟩
          simp only [TouchCost.time]
          ring

end GroupedStore

namespace ColdTier

theorem locate_kept (lookup : Lookup) (entries : Nat) (world : World Rat (ColdTier Rat)) :
    (locate lookup entries).Yields world fun _ after => after.machine = world.machine := by
  simp only [locate, yields_bind, yields_store, yields_orCrash, yields_update, yields_pure,
    implies_true]

theorem touch_spends (located : List Located) (world : World Rat (ColdTier Rat)) :
    (touch located).Yields world fun cost after =>
      world.machine.Spends cost.time after.machine ∧ (located = [] → cost.time = 0) := by
  simp only [touch, yields_bind, yields_store]
  cases world.store with
  | plain store =>
      simp only [yields_zoom]
      exact PartitionStore.touch_spends located ⟨store, world.machine⟩
  | grouped store =>
      simp only [yields_zoom]
      exact GroupedStore.touch_spends located ⟨store, world.machine⟩

end ColdTier

end MergeCost
