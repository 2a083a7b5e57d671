import MergeCost.Index.Call
import MergeCost.Proofs.Cold.Composition

/-!
How the runs of an index are composed, at whatever level, and so how every call on it is, other than
one that clears the ledgers of the disk.
-/

namespace MergeCost

open Sim

variable {τ : Type} [Scalar τ] {tells : Event τ → Prop}

namespace BTree

theorem record_composed (request : Request) (time : τ) :
    (record request time : Sim τ (BTree τ) Unit).Composed tells :=
  .update _

theorem descend_composed (levels : Nat) : (descend levels : Sim τ (BTree τ) τ).Composed tells :=
  Composed.store.bind fun tree => (Composed.access .read tree.nodeSize).addTimes levels _

theorem updateLeaf_composed : (updateLeaf : Sim τ (BTree τ) τ).Composed tells :=
  Composed.store.bind fun tree => (descend_composed tree.height).bind fun time =>
    (Composed.access .overwrite tree.nodeSize).bind fun more => .pure (time + more)

theorem updateLeaves_composed (change : Nat → Nat) (count : Nat) (total : τ) :
    (addTimes (do
      let time ← updateLeaf
      setEntries change
      return time) count total : Sim τ (BTree τ) τ).Composed tells :=
  Composed.addTimes
    (updateLeaf_composed.bind fun time => (Composed.update _).bind fun _ => .pure time) count total

theorem close_composed (request : Request) (time : τ) :
    (do
      record request time
      return time : Sim τ (BTree τ) τ).Composed tells :=
  (record_composed request time).bind fun _ => .pure time

theorem insert_composed (entries : Nat) : (insert entries : Sim τ (BTree τ) τ).Composed tells :=
  .ite (.pure _)
    ((updateLeaves_composed _ entries _).bind fun time => close_composed .insert time)

theorem bulkload_composed (entries : Nat) :
    (bulkload entries : Sim τ (BTree τ) τ).Composed tells :=
  .ite (.pure _) (Composed.store.bind fun _ => (Composed.access .write _).bind fun time =>
    (Composed.update _).bind fun _ => close_composed .bulkload time)

theorem findPoint_composed (entries repeats : Nat) :
    (findPoint entries repeats : Sim τ (BTree τ) τ).Composed tells := by
  simp only [findPoint, branches_bind]
  refine .ite (.pure _) (Composed.store.bind fun tree => ?_)
  exact (Composed.ite (.pure _) ((descend_composed tree.height).addTimes _ _)).bind fun time =>
    close_composed .findPoint time

theorem findRange_composed (entries repeats : Nat) :
    (findRange entries repeats : Sim τ (BTree τ) τ).Composed tells := by
  refine Composed.store.bind fun tree =>
    .ite (.pure _) (Composed.bind ?_ fun time => close_composed .findRange time)
  refine Composed.iterate (fun total => ?_) repeats _
  exact (descend_composed _).bind fun inner =>
    (Composed.access .read _).bind fun leaves => .pure _

theorem delete_composed (entries : Nat) : (delete entries : Sim τ (BTree τ) τ).Composed tells :=
  Composed.store.bind fun _ => .ite (.pure _)
    ((updateLeaves_composed _ _ _).bind fun time => close_composed .delete time)

end BTree

/-- Stores whose requests are composed, and emit no other events than these on their own. -/
structure EntryStore.Composed (tells : Event τ → Prop) (σ : Type) [EntryStore τ σ] : Prop where
  insert : ∀ entries : Nat, (EntryStore.insert entries : Sim τ σ τ).Composed tells
  bulkload : ∀ entries : Nat, (EntryStore.bulkload entries : Sim τ σ τ).Composed tells
  find : ∀ (lookup : Lookup) (entries repeats : Nat),
    (EntryStore.find lookup entries repeats : Sim τ σ τ).Composed tells
  delete : ∀ entries : Nat, (EntryStore.delete entries : Sim τ σ τ).Composed tells

theorem BTree.composed : EntryStore.Composed tells (BTree τ) where
  insert := insert_composed
  bulkload := bulkload_composed
  find
    | .point => findPoint_composed
    | .range => findRange_composed
  delete := delete_composed

namespace Merging

variable {σ : Type} [EntryStore τ σ]

omit [EntryStore τ σ] in
theorem record_composed (operation : Operation) (time : τ) (operations : Nat) :
    (record operation time operations : Sim τ (Merging τ σ) Unit).Composed tells :=
  .update _

theorem checkEntries_composed : (checkEntries : Sim τ (Merging τ σ) Unit).Composed tells :=
  Composed.store.bind fun _ => .ite (.crash _) (.pure ())

theorem close_composed (request : Request) (time : τ) :
    (do
      record (.request request) time 1
      checkEntries
      return time : Sim τ (Merging τ σ) τ).Composed tells :=
  (record_composed _ time 1).bind fun _ => checkEntries_composed.bind fun _ => .pure time

theorem split_composed (entries : Nat) :
    (split entries : Sim τ (Merging τ σ) (Split τ)).Composed tells :=
  Composed.store.bind fun _ => (Composed.orCrash _).bind fun parts =>
    (Composed.update _).bind fun _ => .pure parts

omit [EntryStore τ σ] in
theorem touchCold_composed (lookup : Lookup) (entries : Nat) :
    (touchCold lookup entries : Sim τ (Merging τ σ) (TouchCost τ)).Composed Event.IsMerging := by
  refine ((ColdTier.locate_composed lookup entries).zoom _ _).bind fun located =>
    ((ColdTier.touch_composed located).zoom _ _).bind fun cost => .ite ?_ (.pure cost)
  exact (record_composed .invalidation _ _).bind fun _ =>
    (record_composed .loading _ _).bind fun _ => .pure cost

omit [EntryStore τ σ] in
theorem expectFewer_composed (entries : Nat) :
    (expectFewer entries : Sim τ (Merging τ σ) Unit).Composed tells :=
  Composed.store.bind fun _ =>
    .ite ((Composed.crash _).bind fun _ => .update _) (.update _)

omit [EntryStore τ σ] in
theorem refuseBulkload_composed : (refuseBulkload : Sim τ (Merging τ σ) τ).Composed tells :=
  Composed.store.bind fun _ => .throw _

variable (wrapped : EntryStore.Composed Event.IsMerging σ)
include wrapped

theorem migrate_composed (lookup : Lookup) (entries : Nat) (time : τ) :
    (migrate lookup entries time : Sim τ (Merging τ σ) (Nat × τ)).Composed Event.IsMerging :=
  (touchCold_composed lookup entries).bind fun cost =>
    ((wrapped.insert cost.entries).zoom _ _).bind fun _ => .pure _

theorem findWrapped_composed (lookup : Lookup) (entries repeats : Nat) (time : τ) :
    (findWrapped lookup entries repeats time : Sim τ (Merging τ σ) τ).Composed Event.IsMerging :=
  ((wrapped.find lookup entries repeats).zoom _ _).bind fun _ => .pure _

theorem findCold_composed (lookup : Lookup) (entries repeats : Nat) (time : τ) :
    (findCold lookup entries repeats time : Sim τ (Merging τ σ) τ).Composed Event.IsMerging :=
  (migrate_composed wrapped lookup entries time).bind fun (moved, total) =>
    .ite (findWrapped_composed wrapped lookup moved (repeats - 1) total) (.pure total)

theorem deleteWrapped_composed (entries : Nat) (time : τ) :
    (deleteWrapped entries time : Sim τ (Merging τ σ) τ).Composed Event.IsMerging :=
  ((wrapped.delete entries).zoom _ _).bind fun _ => .pure _

theorem deleteCold_composed (entries : Nat) (time : τ) :
    (deleteCold entries time : Sim τ (Merging τ σ) τ).Composed Event.IsMerging :=
  (migrate_composed wrapped .point entries time).bind fun (moved, total) =>
    deleteWrapped_composed wrapped moved total

theorem insert_composed (entries : Nat) :
    (insert entries : Sim τ (Merging τ σ) τ).Composed Event.IsMerging :=
  .ite (.pure _) (((wrapped.insert entries).zoom _ _).bind fun time =>
    (Composed.update _).bind fun _ => close_composed .insert time)

theorem find_composed (lookup : Lookup) (entries repeats : Nat) :
    (find lookup entries repeats : Sim τ (Merging τ σ) τ).Composed Event.IsMerging := by
  simp only [find, branches_bind]
  refine Composed.store.bind fun merging =>
    .ite (.pure _) ((split_composed _).bind fun parts => ?_)
  have hot := Composed.unlessZero parts.hot Scalar.zero
    (findWrapped_composed wrapped lookup parts.hot repeats Scalar.zero)
  have cold (time : τ) := Composed.unlessZero parts.cold time
    (findCold_composed wrapped lookup parts.cold repeats time)
  exact hot.bind fun time => (cold time).bind fun total => close_composed lookup.request total

theorem delete_composed (entries : Nat) :
    (delete entries : Sim τ (Merging τ σ) τ).Composed Event.IsMerging := by
  simp only [delete, branches_bind]
  refine Composed.store.bind fun merging =>
    .ite (.pure _) ((split_composed _).bind fun parts => ?_)
  have hot := Composed.unlessZero parts.hot Scalar.zero
    (deleteWrapped_composed wrapped parts.hot Scalar.zero)
  have cold (time : τ) := Composed.unlessZero parts.cold time
    (deleteCold_composed wrapped parts.cold time)
  exact hot.bind fun time => (cold time).bind fun total =>
    (expectFewer_composed _).bind fun _ => close_composed .delete total

theorem composed : EntryStore.Composed Event.IsMerging (Merging τ σ) where
  insert := insert_composed wrapped
  bulkload _ := refuseBulkload_composed
  find := find_composed wrapped
  delete := delete_composed wrapped

end Merging

theorem Stack.composed (depth : Nat) :
    EntryStore.Composed (τ := τ) Event.IsMerging (Stack τ depth) := by
  induction depth with
  | zero => exact BTree.composed
  | succ depth ih => exact Merging.composed ih

/-- Whether a call clears the ledgers of the disk. -/
def Call.isReset : Call τ → Bool
  | resetLedgers => true
  | _ => false

theorem Call.action_composed {σ : Type} [EntryStore τ σ] (composed : EntryStore.Composed tells σ)
    {call : Call τ} (kept : ¬call.isReset) : (call.action : Sim τ σ τ).Composed tells := by
  cases call with
  | insert entries => exact composed.insert entries
  | bulkload entries => exact composed.bulkload entries
  | find lookup entries repeats => exact composed.find lookup entries repeats
  | findShare lookup share repeats =>
      refine Composed.store.bind fun store => ?_
      cases entriesOfShare (EntryStore.entries store) share with
      | ok count => exact composed.find lookup count repeats
      | error refusal => exact .throw refusal
  | delete entries => exact composed.delete entries
  | access kind bytes => exact .access kind bytes
  | resetLedgers => exact absurd rfl kept

end MergeCost
