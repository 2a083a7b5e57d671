import MergeCost.Cold.ColdTier
import MergeCost.Simulation.Composed

/-!
How the runs of the cold side are composed. What they emit of their own are remarks on merging.
-/

namespace MergeCost

open Sim

variable {τ : Type} [Scalar τ] {tells : Event τ → Prop}

namespace PartitionStore

theorem bytesOf_composed (partition : Nat) :
    (bytesOf partition : Sim τ PartitionStore Nat).Composed tells := by
  refine Composed.store.bind fun store => ?_
  cases store.partitions[partition]? with
  | none => exact .crash _
  | some found => exact .pure _

theorem load_composed (partition : Nat) :
    (load partition : Sim τ PartitionStore τ).Composed tells :=
  (bytesOf_composed partition).bind fun bytes => .access .read bytes

theorem take_composed (partition entries : Nat) :
    (take partition entries : Sim τ PartitionStore Nat).Composed tells := by
  refine Composed.store.bind fun store => ?_
  cases store.partitions[partition]? with
  | none => exact .crash _
  | some found => exact (Composed.update _).bind fun _ => .pure _

/-- An invalidation looks at the disk, but only for the size of its erase blocks. -/
theorem invalidate_composed (part : Located) :
    (invalidate part : Sim τ PartitionStore τ).Composed tells := by
  refine Composed.store.bind fun store => ?_
  cases store.invalidation with
  | blockRewrite =>
      refine (bytesOf_composed part.partition).bind fun valid =>
        Composed.disk_bind ?_ fun disk => .access _ _
      intro first second device
      rw [device]
  | inPlace =>
      exact (Composed.access .read _).bind fun readTime => (Composed.access .overwrite _).bind
        fun overwriteTime => .pure (readTime + overwriteTime)

theorem touchOne_composed (cost : TouchCost τ) (part : Located) :
    (touchOne cost part : Sim τ PartitionStore (TouchCost τ)).Composed tells :=
  (invalidate_composed part).bind fun _ => (load_composed part.partition).bind fun _ =>
    (take_composed part.partition part.entries).bind fun _ => .pure _

theorem touch_composed (located : List Located) :
    (touch located : Sim τ PartitionStore (TouchCost τ)).Composed Event.IsMerging :=
  .ite (.pure _) ((Composed.foldlM touchOne_composed located _).bind fun _ =>
    .bind (.emit rfl) fun _ => .pure _)

end PartitionStore

namespace GroupedStore

theorem touchOne_composed (cost : TouchCost τ) (part : Located) :
    (touchOne cost part : Sim τ (GroupedStore τ) (TouchCost τ)).Composed tells :=
  ((PartitionStore.load_composed part.partition).zoom _ _).bind fun _ =>
    ((PartitionStore.take_composed part.partition part.entries).zoom _ _).bind fun _ =>
      (Composed.update _).bind fun _ => .pure _

theorem reorganize_composed (selected : List (EraseBlock × Nat)) (bins : List Bin) :
    (reorganize selected bins : Sim τ (GroupedStore τ) τ).Composed Event.IsMerging := by
  refine Composed.store.bind fun store => (Composed.access .read _).bind fun readTime =>
    (Composed.access .overwrite _).bind fun overwriteTime => .ite ?_ ?_
  · exact (Composed.crash _).bind fun _ => (Composed.update _).bind fun _ =>
      .bind (.emit rfl) fun _ => .pure _
  · exact (Composed.update _).bind fun _ => .bind (.emit rfl) fun _ => .pure _

theorem touch_composed (located : List Located) :
    (touch located : Sim τ (GroupedStore τ) (TouchCost τ)).Composed Event.IsMerging := by
  refine .ite (.pure _) ((Composed.foldlM touchOne_composed located _).bind fun cost =>
    Composed.store.bind fun store => ?_)
  cases store.plan? with
  | none => exact .pure _
  | some plan => exact (reorganize_composed plan.1 plan.2).bind fun _ => .pure _

end GroupedStore

namespace ColdTier

theorem locate_composed (lookup : Lookup) (entries : Nat) :
    (locate lookup entries : Sim τ (ColdTier τ) (List Located)).Composed tells :=
  Composed.store.bind fun _ => (Composed.orCrash _).bind fun _ =>
    (Composed.update _).bind fun _ => .pure _

theorem touch_composed (located : List Located) :
    (touch located : Sim τ (ColdTier τ) (TouchCost τ)).Composed Event.IsMerging := by
  refine Composed.store.bind fun tier => ?_
  cases tier with
  | plain store => exact (PartitionStore.touch_composed located).zoom _ _
  | grouped store => exact (GroupedStore.touch_composed located).zoom _ _

end ColdTier

end MergeCost
