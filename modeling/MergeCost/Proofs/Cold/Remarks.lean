import MergeCost.Proofs.Cold.Composition
import MergeCost.Proofs.Cold.Passes
import MergeCost.Simulation.Silent

/-!
What touches remark. A touch of partitions that stand alone is remarked once, with all that it comes
to. A touch of grouped partitions is not: what is remarked there are the passes that follow touches.
-/

namespace MergeCost

open Sim

variable {τ : Type}

namespace PartitionStore

/-- The number of partitions that have lost entries. -/
def disturbed (before after : PartitionStore) : Nat :=
  (List.range before.partitions.size).countP fun partition =>
    after.remaining partition < before.remaining partition

theorem disturbed_congr {first second left after : PartitionStore}
    (start : first.partitions = left.partitions) (finish : second.partitions = after.partitions) :
    first.disturbed second = left.disturbed after := by
  have less : first.remaining = left.remaining :=
    funext fun _ => by rw [remaining, start, remaining]
  have rest : second.remaining = after.remaining :=
    funext fun _ => by rw [remaining, finish, remaining]
  rw [disturbed, disturbed, start, less, rest]

/-- What has been allotted disturbs just the partitions that it is taken from. -/
theorem Allots.lost_iff {store : PartitionStore} {located : List Located}
    (allots : store.Allots located) (partition : Nat) :
    (store.drainAll located).remaining partition < store.remaining partition ↔
      partition ∈ located.map Located.partition := by
  rw [remaining_drainAll]
  constructor
  · intro less
    by_contra absent
    rw [entriesIn_eq_zero absent] at less
    exact absurd less (Nat.lt_irrefl _)
  · intro inside
    obtain ⟨part, listed, rfl⟩ := List.mem_map.mp inside
    have available := allots.available part listed
    have taken := le_entriesIn listed
    omega

theorem Allots.disturbed_drainAll {store : PartitionStore} {located : List Located}
    (allots : store.Allots located) :
    store.disturbed (store.drainAll located) = located.length := by
  let lost := (List.range store.partitions.size).filter fun partition =>
    (store.drainAll located).remaining partition < store.remaining partition
  have givers : lost.Perm (located.map Located.partition) := by
    refine (List.perm_ext_iff_of_nodup (List.nodup_range.filter _) allots.distinct).mpr ?_
    intro partition
    rw [List.mem_filter, decide_eq_true_eq, allots.lost_iff, List.mem_range]
    refine and_iff_right_of_imp fun inside => ?_
    obtain ⟨part, listed, rfl⟩ := List.mem_map.mp inside
    exact allots.inRange part listed
  rw [disturbed, List.countP_eq_length_filter]
  exact givers.length_eq.trans (List.length_map _)

variable [Scalar τ]

theorem touch_remarks {located : List Located} (something : located ≠ [])
    (world : World τ PartitionStore) :
    (touch located).Yields world fun cost after =>
      after.machine.remarks = world.machine.remarks ++
        [.touched located.length cost.entries cost.invalidationTime cost.loadingTime] := by
  rw [touch, if_neg (by simpa using something)]
  simp only [yields_bind, yields_emit, yields_pure]
  refine ((Composed.foldlM touchOne_composed located .empty).silent world).mono ?_
  intro cost after same
  rw [Machine.remarks_emit _ rfl, same]

end PartitionStore

namespace GroupedStore

variable [Scalar τ]

theorem reorganize_remarks (selected : List (EraseBlock × Nat)) (bins : List Bin)
    (world : World τ (GroupedStore τ)) :
    (reorganize selected bins).Yields world fun _ after =>
      ∃ pass, after.machine.remarks = world.machine.remarks ++ [pass] ∧ pass.isPass := by
  simp only [reorganize, yields_bind, yields_store, yields_access, yields_ite, yields_update,
    yields_emit, yields_pure]
  refine ⟨fun _ => yields_crash _ _, fun _ => ?_⟩
  rw [Machine.remarks_emit _ rfl, Machine.remarks_access, Machine.remarks_access]
  exact ⟨_, rfl, rfl⟩

/-- There is one remark for each pass, and none for the touch itself. -/
theorem touch_remarks (located : List Located) (world : World τ (GroupedStore τ)) :
    (touch located).Yields world fun cost after =>
      ∃ passes, after.machine.remarks = world.machine.remarks ++ passes ∧
        passes.length = cost.invalidations ∧ ∀ pass ∈ passes, pass.isPass := by
  rw [touch, yields_ite]
  refine ⟨fun _ => (yields_pure _ _).mpr ⟨[], by simp [TouchCost.empty]⟩, fun _ => ?_⟩
  rw [yields_bind]
  intro cost between loaded
  have none := touchAll_invalidations located world cost between loaded
  have quiet := (Composed.foldlM touchOne_composed located (.empty : TouchCost τ)).silent
  have same := quiet world cost between loaded
  simp only [yields_bind, yields_store]
  cases between.store.plan? with
  | none => exact (yields_pure _ _).mpr ⟨[], by simp [same, none]⟩
  | some plan =>
      simp only [yields_bind, yields_pure]
      refine (reorganize_remarks plan.1 plan.2 between).mono ?_
      rintro time after ⟨pass, remarked, isPass⟩
      exact ⟨[pass], by rw [remarked, same], rfl, by simpa using isPass⟩

end GroupedStore

namespace ColdTier

variable [Scalar τ] {tier left : ColdTier τ} {located : List Located} {machine after : Machine τ}
  {cost : TouchCost τ}

/-- What a touch of a tier remarks, by the way in which it is charged. -/
theorem touch_remarks (something : located ≠ [])
    (touched : outcome (touch located) ⟨tier, machine⟩ = .ok (.ok cost, ⟨left, after⟩)) :
    ∃ remarks, after.remarks = machine.remarks ++ remarks ∧
      (∀ store, tier = .plain store → remarks =
        [.touched located.length cost.entries cost.invalidationTime cost.loadingTime]) ∧
      (∀ store, tier = .grouped store →
        remarks.length = cost.invalidations ∧ ∀ remark ∈ remarks, remark.isPass) := by
  have yields : (touch located).Yields ⟨tier, machine⟩ fun cost after =>
      ∃ remarks, after.machine.remarks = machine.remarks ++ remarks ∧
        (∀ store, tier = .plain store → remarks =
          [.touched located.length cost.entries cost.invalidationTime cost.loadingTime]) ∧
        (∀ store, tier = .grouped store →
          remarks.length = cost.invalidations ∧ ∀ remark ∈ remarks, remark.isPass) := by
    simp only [touch, yields_bind, yields_store]
    cases tier with
    | plain store =>
        simp only [yields_zoom]
        refine (PartitionStore.touch_remarks something ⟨store, machine⟩).mono ?_
        intro cost after said
        refine ⟨_, said, fun _ _ => rfl, fun _ other => ?_⟩
        cases other
    | grouped store =>
        simp only [yields_zoom]
        refine (GroupedStore.touch_remarks located ⟨store, machine⟩).mono ?_
        rintro cost after ⟨passes, said, counted⟩
        refine ⟨passes, said, fun _ other => ?_, fun _ _ => counted⟩
        cases other
  exact yields cost ⟨left, after⟩ touched

end ColdTier

end MergeCost
