import MergeCost.Index.InWords
import MergeCost.Proofs.Cold.Words
import MergeCost.Proofs.Index.Heights
import MergeCost.Simulation.Follows

/-!
Calls in words, at whatever level of an index. A run of calls in words is the run of these calls,
unless it breaks off for an overflow.
-/

namespace MergeCost

open Sim

variable {τ : Type} [Scalar τ]

/-! Touches -/

theorem PartitionStore.touchOneInWords_follows (cost : TouchCost τ) (part : Located) :
    (touchOneInWords cost part).Follows (touchOne cost part) :=
  .store_bind fun _ => .orCrash_bind (Word.hold_cases _) (.inWords _)

theorem PartitionStore.touchInWords_follows (located : List Located) :
    (touchInWords located : Sim τ PartitionStore (TouchCost τ)).Follows (touch located) :=
  .ite (.refl _) ((Follows.foldlM touchOneInWords_follows located _).bind fun _ => .refl _)

namespace GroupedStore

theorem touchInWords_follows (located : List Located) :
    (touchInWords located : Sim τ (GroupedStore τ) (TouchCost τ)).Follows (touch located) := by
  refine .ite (.refl _) ((Follows.foldlM (fun cost part => .inWords (touchOne cost part))
    located _).bind fun cost => (Follows.refl _).bind fun store => ?_)
  refine .orCrash_bind (store.planInWords_cases.imp_right And.left) ?_
  cases store.plan? with
  | none => exact .refl _
  | some plan =>
      refine Follows.bind ?_ fun time => .refl _
      exact .orCrash_bind (by rw [Word.sum_eq]; exact Word.hold_cases _) (.inWords _)

end GroupedStore

theorem ColdTier.touchInWords_follows (located : List Located) :
    (touchInWords located : Sim τ (ColdTier τ) (TouchCost τ)).Follows (touch located) := by
  refine (Follows.refl _).bind fun tier => ?_
  cases tier with
  | plain store => exact (PartitionStore.touchInWords_follows located).zoom _ _
  | grouped store => exact (GroupedStore.touchInWords_follows located).zoom _ _

/-! Requests -/

omit [Scalar τ] in
theorem OperationLedger.hold_cases (ledger : OperationLedger τ) :
    ledger.hold = .ok () ∨ ledger.hold = .error .overflow := by
  unfold hold
  split
  · exact .inl rfl
  · exact .inr rfl

namespace EntryStore

variable {σ α : Type} [EntryStore τ σ]

omit [Scalar τ] in
theorem held_follows {action exact : Sim τ σ α} (follows : action.Follows exact) :
    (held action).Follows exact := by
  rw [← bind_pure exact]
  refine follows.bind fun value => .store_bind fun store => ?_
  exact .orCrash_bind (Word.hold_cases _) (.orCrash_bind (OperationLedger.hold_cases _) (.refl _))

/-- Stores whose requests in words follow the requests. -/
structure Follows (τ σ : Type) [EntryStore τ σ] [InWords τ σ] : Prop where
  insert : ∀ entries, (InWords.insert entries : Sim τ σ τ).Follows (EntryStore.insert entries)
  bulkload : ∀ entries, (InWords.bulkload entries : Sim τ σ τ).Follows (EntryStore.bulkload entries)
  find : ∀ lookup entries repeats, (InWords.find lookup entries repeats : Sim τ σ τ).Follows
    (EntryStore.find lookup entries repeats)
  delete : ∀ entries, (InWords.delete entries : Sim τ σ τ).Follows (EntryStore.delete entries)

end EntryStore

open EntryStore (held_follows)

namespace BTree

theorem bulkloadInWords_follows (entries : Nat) :
    (bulkloadInWords entries : Sim τ (BTree τ) τ).Follows (bulkload entries) := by
  refine .ite (.refl _) ((Follows.refl _).bind fun tree => ?_)
  have taken : (do Word.mul (← tree.nodesForInWords entries) tree.nodeSize) =
        .ok (tree.nodesFor entries * tree.nodeSize) ∨
      (do Word.mul (← tree.nodesForInWords entries) tree.nodeSize) = .error .overflow := by
    rcases climbNodesInWords_cases tree.two_le_fanout .. with added | broken
    · rw [nodesForInWords, added]
      exact Word.hold_cases _
    · rw [nodesForInWords, broken]
      exact .inr rfl
  exact .orCrash_bind taken
    ((Follows.inWords _).bind fun _ => .orCrash_bind (Word.hold_cases _) (.refl _))

theorem findRangeInWords_follows (entries repeats : Nat) :
    (findRangeInWords entries repeats : Sim τ (BTree τ) τ).Follows (findRange entries repeats) := by
  intro world
  by_cases nothing : min entries world.store.entries = 0 ∨ repeats = 0
  · left
    simp only [findRangeInWords, findRange, outcome_bind, outcome_store, after_ok, if_pos nothing]
  · have leaves : (orCrash (Word.mul (unitsFor (min entries world.store.entries)
        world.store.fanout) world.store.nodeSize) >>= fun _ =>
          Sim.inWords (findRange entries repeats) : Sim τ (BTree τ) τ).Follows
            (findRange entries repeats) :=
      .orCrash_bind (Word.hold_cases _) (.inWords _)
    simp only [findRangeInWords, outcome_bind, outcome_store, after_ok, if_neg nothing]
    rw [← outcome_bind]
    exact leaves world

theorem follows : EntryStore.Follows τ (BTree τ) where
  insert _ := held_follows (.inWords _)
  bulkload _ := held_follows (bulkloadInWords_follows _)
  find
    | .point, _, _ => held_follows (.inWords _)
    | .range, _, _ => held_follows (findRangeInWords_follows _ _)
  delete _ := held_follows (.inWords _)

end BTree

namespace Merging

variable {σ : Type} [EntryStore τ σ]

omit [EntryStore τ σ] in
theorem touchColdInWords_follows (lookup : Lookup) (entries : Nat) :
    (touchColdInWords lookup entries : Sim τ (Merging τ σ) (TouchCost τ)).Follows
      (touchCold lookup entries) :=
  (Follows.refl _).bind fun located =>
    ((ColdTier.touchInWords_follows located).zoom _ _).bind fun _ => .refl _

variable [EntryStore.InWords τ σ] (wrapped : EntryStore.Follows τ σ)
include wrapped

theorem migrateInWords_follows (lookup : Lookup) (entries : Nat) (time : τ) :
    (migrateInWords lookup entries time : Sim τ (Merging τ σ) (Nat × τ)).Follows
      (migrate lookup entries time) :=
  (touchColdInWords_follows lookup entries).bind fun cost =>
    ((wrapped.insert cost.entries).zoom _ _).bind fun _ => .refl _

theorem findWrappedInWords_follows (lookup : Lookup) (entries repeats : Nat) (time : τ) :
    (findWrappedInWords lookup entries repeats time : Sim τ (Merging τ σ) τ).Follows
      (findWrapped lookup entries repeats time) :=
  ((wrapped.find lookup entries repeats).zoom _ _).bind fun _ => .refl _

theorem findColdInWords_follows (lookup : Lookup) (entries repeats : Nat) (time : τ) :
    (findColdInWords lookup entries repeats time : Sim τ (Merging τ σ) τ).Follows
      (findCold lookup entries repeats time) :=
  (migrateInWords_follows wrapped lookup entries time).bind fun (moved, total) =>
    .ite (findWrappedInWords_follows wrapped lookup moved (repeats - 1) total) (.refl _)

theorem deleteWrappedInWords_follows (entries : Nat) (time : τ) :
    (deleteWrappedInWords entries time : Sim τ (Merging τ σ) τ).Follows
      (deleteWrapped entries time) :=
  ((wrapped.delete entries).zoom _ _).bind fun _ => .refl _

theorem deleteColdInWords_follows (entries : Nat) (time : τ) :
    (deleteColdInWords entries time : Sim τ (Merging τ σ) τ).Follows (deleteCold entries time) :=
  (migrateInWords_follows wrapped .point entries time).bind fun (moved, total) =>
    deleteWrappedInWords_follows wrapped moved total

theorem insertInWords_follows (entries : Nat) :
    (insertInWords entries : Sim τ (Merging τ σ) τ).Follows (insert entries) :=
  .ite (.refl _) (((wrapped.insert entries).zoom _ _).bind fun _ => .refl _)

theorem findInWords_follows (lookup : Lookup) (entries repeats : Nat) :
    (findInWords lookup entries repeats : Sim τ (Merging τ σ) τ).Follows
      (find lookup entries repeats) := by
  simp only [findInWords, find, branches_bind]
  refine (Follows.refl _).bind fun merging => .ite (.refl _) ((Follows.refl _).bind fun parts => ?_)
  refine Follows.bind (.ite (.refl _) ?_) fun time =>
    Follows.bind (.ite (.refl _) ?_) fun _ => .refl _
  · exact findWrappedInWords_follows wrapped lookup parts.hot repeats _
  · exact findColdInWords_follows wrapped lookup parts.cold repeats time

theorem deleteInWords_follows (entries : Nat) :
    (deleteInWords entries : Sim τ (Merging τ σ) τ).Follows (delete entries) := by
  simp only [deleteInWords, delete, branches_bind]
  refine (Follows.refl _).bind fun merging => .ite (.refl _) ((Follows.refl _).bind fun parts => ?_)
  refine Follows.bind (.ite (.refl _) ?_) fun time =>
    Follows.bind (.ite (.refl _) ?_) fun _ => .refl _
  · exact deleteWrappedInWords_follows wrapped parts.hot _
  · exact deleteColdInWords_follows wrapped parts.cold time

theorem follows : EntryStore.Follows τ (Merging τ σ) where
  insert _ := held_follows (insertInWords_follows wrapped _)
  bulkload _ := .refl _
  find _ _ _ := held_follows (findInWords_follows wrapped _ _ _)
  delete _ := held_follows (deleteInWords_follows wrapped _)

end Merging

theorem Stack.follows (depth : Nat) : EntryStore.Follows τ (Stack τ depth) := by
  induction depth with
  | zero => exact BTree.follows
  | succ depth ih => exact Merging.follows ih

/-! Calls -/

theorem Call.actionInWords_follows {σ : Type} [EntryStore τ σ] [EntryStore.InWords τ σ]
    (follows : EntryStore.Follows τ σ) (call : Call τ) :
    (call.actionInWords : Sim τ σ τ).Follows call.action := by
  cases call with
  | insert entries => exact follows.insert entries
  | bulkload entries => exact follows.bulkload entries
  | find lookup entries repeats => exact follows.find lookup entries repeats
  | findShare lookup share repeats =>
      refine (Follows.refl _).bind fun store => ?_
      cases entriesOfShare (EntryStore.entries store) share with
      | ok count => exact follows.find lookup count repeats
      | error refusal => exact .refl _
  | delete entries => exact follows.delete entries
  | access kind bytes => exact .inWords _
  | resetLedgers => exact .refl _

namespace Index

theorem callInWords_cases (index : Index τ) (call : Call τ) :
    index.callInWords call = index.call call ∨ index.callInWords call = .error .overflow := by
  have follows := call.actionInWords_follows (Stack.follows index.depth)
  rw [callInWords, Index.call, perform, perform]
  rcases follows ⟨index.stack, index.machine⟩ with same | broken
  · rw [same]
    exact .inl rfl
  · rw [broken]
    exact .inr rfl

theorem runInWords_cases (index : Index τ) (calls : List (Call τ)) :
    index.runInWords calls = index.run calls ∨ index.runInWords calls = .error .overflow := by
  induction calls generalizing index with
  | nil => exact .inl rfl
  | cons first rest ih =>
      rw [runInWords, run]
      rcases index.callInWords_cases first with same | broken
      · rw [same]
        rcases index.call first with fault | ⟨result, between⟩
        · exact .inl rfl
        · change (between.runInWords rest >>= _) = (between.run rest >>= _) ∨
            (between.runInWords rest >>= _) = _
          rcases ih between with sameRest | brokenRest
          · rw [sameRest]
            exact .inl rfl
          · rw [brokenRest]
            exact .inr rfl
      · rw [broken]
        exact .inr rfl

end Index

end MergeCost
