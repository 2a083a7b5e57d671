import MergeCost.Proofs.Cost.Touch
import MergeCost.Proofs.Index.Reachable

/-!
Accounts of requests, over exact seconds. The time that a request gives is what the machine spends
on it, and every ledger that it is entered into grows by just that: the ledger of the disk, that of
the index, and, part by part, those of the touches and of the wrapped index.
-/

namespace MergeCost

open Sim

def OperationLedger.seconds (ledger : OperationLedger Rat) (counter : OperationCounter) : Rat :=
  (ledger.value counter).toScalar

theorem OperationLedger.totalTime_record (ledger : OperationLedger Rat) (request : Request)
    (time : Rat) (operations : Nat) :
    (ledger.record (.request request) time operations).seconds .totalTime =
      ledger.seconds .totalTime + time := by
  cases request <;>
    · simp [seconds, value, Reading.toScalar, requests, Request.all, Scalar.sum, record,
        tally_modify, Tally.record]
      ring

namespace EntryStore

variable {τ σ : Type}

/-- Every request that ends well stands in a relation to the worlds before and after it. -/
structure Meets [EntryStore τ σ] (post : World τ σ → τ → World τ σ → Prop) : Prop where
  insert : ∀ entries world, (EntryStore.insert entries).Yields world (post world)
  bulkload : ∀ entries world, (EntryStore.bulkload entries).Yields world (post world)
  find : ∀ lookup entries repeats world,
    (EntryStore.find lookup entries repeats).Yields world (post world)
  delete : ∀ entries world, (EntryStore.delete entries).Yields world (post world)

theorem Meets.mono [EntryStore τ σ] {post weaker : World τ σ → τ → World τ σ → Prop}
    (meets : Meets post) (weaken : ∀ world time after, post world time after →
      weaker world time after) : Meets weaker where
  insert := fun entries world => (meets.insert entries world).mono (weaken world)
  bulkload := fun entries world => (meets.bulkload entries world).mono (weaken world)
  find := fun lookup entries repeats world =>
    (meets.find lookup entries repeats world).mono (weaken world)
  delete := fun entries world => (meets.delete entries world).mono (weaken world)

theorem Meets.call [Scalar τ] [EntryStore τ σ] {post : World τ σ → τ → World τ σ → Prop}
    (meets : Meets post) {call : Call τ} (request : call.isRequest) (world : World τ σ) :
    call.action.Yields world (post world) := by
  cases call with
  | insert entries => exact meets.insert entries world
  | bulkload entries => exact meets.bulkload entries world
  | find lookup entries repeats => exact meets.find lookup entries repeats world
  | findShare lookup share repeats =>
      intro time after ended
      rw [Call.action, outcome_findShare] at ended
      cases wanted : entriesOfShare (entries world.store) share with
      | error refusal => simp [wanted] at ended
      | ok count =>
          simp only [wanted] at ended
          exact meets.find lookup count repeats world time after ended
  | delete entries => exact meets.delete entries world
  | access kind bytes => cases request
  | resetLedgers => cases request

/-- A request is paid for once: its time is what the machine has spent, and what the ledger of the
index has grown by. -/
structure Accounted [EntryStore Rat σ] (before : World Rat σ) (time : Rat)
    (after : World Rat σ) : Prop where
  spends : before.machine.Spends time after.machine
  recorded : (ledger after.store).seconds .totalTime =
    (ledger before.store).seconds .totalTime + time

theorem Accounted.nothing [EntryStore Rat σ] (world : World Rat σ) :
    Accounted world Scalar.zero world :=
  ⟨.nothing world.machine, (add_zero _).symm⟩

end EntryStore

/-! B+trees -/

namespace BTree

/-- Accesses have been paid for, but nothing is entered into the ledger yet. -/
structure Spent (before : World Rat (BTree Rat)) (time : Rat) (after : World Rat (BTree Rat)) :
    Prop where
  spends : before.machine.Spends time after.machine
  ledger_eq : after.store.ledger = before.store.ledger

variable {world : World Rat (BTree Rat)}

theorem Spent.nothing (world : World Rat (BTree Rat)) : Spent world 0 world :=
  ⟨.nothing world.machine, rfl⟩

theorem Spent.trans {first second third : World Rat (BTree Rat)} {earlier later time : Rat}
    (start : Spent first earlier second) (rest : Spent second later third)
    (whole : time = earlier + later) : Spent first time third :=
  ⟨start.spends.trans rest.spends whole, rest.ledger_eq.trans start.ledger_eq⟩

theorem access_spent (kind : Access) (bytes : Nat) (world : World Rat (BTree Rat)) :
    (access kind bytes).Yields world (Spent world) :=
  (yields_access kind bytes _).mpr ⟨.access _ _ _, rfl⟩

theorem iterate_spent {step : Rat → Sim Rat (BTree Rat) Rat}
    (each : ∀ total world, (step total).Yields world fun time after =>
      Spent world (time - total) after)
    (count : Nat) (total : Rat) (world : World Rat (BTree Rat)) :
    (iterate step count total).Yields world fun time after =>
      Spent world (time - total) after := by
  let holds (time : Rat) (after : World Rat (BTree Rat)) : Prop := Spent world (time - total) after
  have start : holds total world := by
    simpa only [holds, sub_self] using Spent.nothing world
  refine yields_iterate ?_ count start
  intro time between spent
  refine (each time between).mono ?_
  intro next after more
  exact spent.trans more (by ring)

theorem addTimes_spent {action : Sim Rat (BTree Rat) Rat}
    (each : ∀ world, action.Yields world (Spent world)) (count : Nat) (total : Rat)
    (world : World Rat (BTree Rat)) :
    (addTimes action count total).Yields world fun time after =>
      Spent world (time - total) after := by
  refine iterate_spent ?_ count total world
  intro total world
  rw [yields_bind]
  refine (each world).mono ?_
  intro time after spent
  rw [yields_pure, add_sub_cancel_left]
  exact spent

theorem descend_spent (levels : Nat) (world : World Rat (BTree Rat)) :
    (descend levels).Yields world (Spent world) := by
  simp only [descend, yields_bind, yields_store]
  refine (addTimes_spent (access_spent .read world.store.nodeSize) levels _ world).mono ?_
  intro time after spent
  simpa [Scalar.zero, Scalar.ofNat] using spent

theorem updateLeaf_spent (world : World Rat (BTree Rat)) :
    updateLeaf.Yields world (Spent world) := by
  simp only [updateLeaf, yields_bind, yields_store]
  refine (descend_spent world.store.height world).mono ?_
  intro time between descended
  refine (access_spent .overwrite world.store.nodeSize between).mono ?_
  intro overwritten after written
  exact (yields_pure _ _).mpr (descended.trans written rfl)

/-- What has been spent on a request is entered into the ledger. -/
theorem record_accounted {between : World Rat (BTree Rat)} {time : Rat}
    (spent : Spent world time between) (request : Request) :
    (do
      record request time
      return time : Sim Rat (BTree Rat) Rat).Yields between (EntryStore.Accounted world) := by
  simp only [record, yields_bind, yields_update, yields_pure]
  refine ⟨spent.spends, ?_⟩
  exact (OperationLedger.totalTime_record between.store.ledger request time 1).trans
    (by rw [spent.ledger_eq]; rfl)

theorem updateLeaves_spent (change : Nat → Nat) (count : Nat) (world : World Rat (BTree Rat)) :
    (addTimes (do
      let time ← updateLeaf
      setEntries change
      return time) count Scalar.zero).Yields world (Spent world) := by
  have step (world : World Rat (BTree Rat)) : (do
      let time ← updateLeaf
      setEntries change
      return time : Sim Rat (BTree Rat) Rat).Yields world (Spent world) := by
    simp only [yields_bind, setEntries, yields_update, yields_pure]
    refine (updateLeaf_spent world).mono ?_
    intro time after spent
    exact ⟨spent.spends, spent.ledger_eq⟩
  refine (addTimes_spent step count Scalar.zero world).mono ?_
  intro time after spent
  simpa [Scalar.zero, Scalar.ofNat] using spent

theorem insert_accounted (entries : Nat) (world : World Rat (BTree Rat)) :
    (insert entries).Yields world (EntryStore.Accounted world) := by
  rw [insert, yields_ite]
  refine ⟨fun _ => (yields_pure _ _).mpr (.nothing world), fun _ => ?_⟩
  rw [yields_bind]
  exact (updateLeaves_spent (· + 1) entries world).mono fun _ _ spent =>
    record_accounted spent .insert

theorem bulkload_accounted (entries : Nat) (world : World Rat (BTree Rat)) :
    (bulkload entries).Yields world (EntryStore.Accounted world) := by
  rw [bulkload, yields_ite]
  refine ⟨fun _ => (yields_pure _ _).mpr (.nothing world), fun _ => ?_⟩
  rw [yields_bind, yields_store, yields_bind]
  refine (access_spent .write _ world).mono ?_
  intro time between spent
  rw [yields_bind, setEntries, yields_update]
  have grown : Spent world time ⟨{ between.store with
      entries := between.store.entries + entries }, between.machine⟩ :=
    ⟨spent.spends, spent.ledger_eq⟩
  exact record_accounted grown .bulkload

theorem findPoint_accounted (entries repeats : Nat) (world : World Rat (BTree Rat)) :
    (findPoint entries repeats).Yields world (EntryStore.Accounted world) := by
  rw [findPoint, yields_ite]
  refine ⟨fun _ => (yields_pure _ _).mpr (.nothing world), fun _ => ?_⟩
  rw [yields_bind, yields_store, branches_bind, yields_bind, yields_ite]
  constructor
  · intro _
    exact (yields_pure _ _).mpr (record_accounted (.nothing world) .findPoint)
  · intro _
    refine (addTimes_spent (descend_spent world.store.height) _ _ world).mono ?_
    intro time between spent
    exact record_accounted (by simpa [Scalar.zero, Scalar.ofNat] using spent) .findPoint

theorem findRange_accounted (entries repeats : Nat) (world : World Rat (BTree Rat)) :
    (findRange entries repeats).Yields world (EntryStore.Accounted world) := by
  rw [findRange, yields_bind, yields_store, yields_ite]
  refine ⟨fun _ => (yields_pure _ _).mpr (.nothing world), fun _ => ?_⟩
  rw [yields_bind]
  refine (iterate_spent ?_ repeats Scalar.zero world).mono ?_
  · intro total world
    rw [yields_bind]
    refine (descend_spent _ world).mono ?_
    intro inner between descended
    rw [yields_bind]
    refine (access_spent .read _ between).mono ?_
    intro leaves after read
    exact (yields_pure _ _).mpr (descended.trans read (by ring))
  · intro time between spent
    exact record_accounted (by simpa [Scalar.zero, Scalar.ofNat] using spent) .findRange

theorem delete_accounted (entries : Nat) (world : World Rat (BTree Rat)) :
    (delete entries).Yields world (EntryStore.Accounted world) := by
  rw [delete, yields_bind, yields_store, yields_ite]
  refine ⟨fun _ => (yields_pure _ _).mpr (.nothing world), fun _ => ?_⟩
  rw [yields_bind]
  exact (updateLeaves_spent (· - 1) _ world).mono fun _ _ spent => record_accounted spent .delete

theorem accounted : EntryStore.Meets (EntryStore.Accounted (σ := BTree Rat)) where
  insert := insert_accounted
  bulkload := bulkload_accounted
  find lookup entries repeats world := by
    cases lookup with
    | point => exact findPoint_accounted entries repeats world
    | range => exact findRange_accounted entries repeats world
  delete := delete_accounted

end BTree

/-! Adaptive merging -/

namespace Merging

variable {σ : Type} [EntryStore Rat σ]

/-- The seconds in the three parts of a ledger: those of touches, and those of the wrapped index. -/
def seconds (merging : Merging Rat σ) : Rat :=
  merging.ledger.seconds (.time .invalidation) + merging.ledger.seconds (.time .loading) +
    (EntryStore.ledger merging.wrapped).seconds .totalTime

/-- Time has been spent and entered into the three parts, but not as a request. -/
structure Spent (before : World Rat (Merging Rat σ)) (time : Rat)
    (after : World Rat (Merging Rat σ)) : Prop where
  spends : before.machine.Spends time after.machine
  parts : after.store.seconds = before.store.seconds + time
  unrecorded : after.store.ledger.seconds .totalTime = before.store.ledger.seconds .totalTime

/-- A request is accounted for, and its time is that of the three parts. -/
structure Accounted (before : World Rat (Merging Rat σ)) (time : Rat)
    (after : World Rat (Merging Rat σ)) : Prop extends EntryStore.Accounted before time after where
  parts : after.store.seconds = before.store.seconds + time

variable {world : World Rat (Merging Rat σ)}

theorem Spent.nothing (world : World Rat (Merging Rat σ)) : Spent world 0 world :=
  ⟨.nothing world.machine, (add_zero _).symm, rfl⟩

theorem Spent.trans {first second third : World Rat (Merging Rat σ)} {earlier later time : Rat}
    (start : Spent first earlier second) (rest : Spent second later third)
    (whole : time = earlier + later) : Spent first time third := by
  refine ⟨start.spends.trans rest.spends whole, ?_, rest.unrecorded.trans start.unrecorded⟩
  rw [rest.parts, start.parts, whole]
  ring

theorem Accounted.nothing (world : World Rat (Merging Rat σ)) :
    Accounted world Scalar.zero world :=
  ⟨.nothing world, (add_zero _).symm⟩

theorem checkEntries_kept (world : World Rat (Merging Rat σ)) :
    checkEntries.Yields world fun _ after => after = world := by
  simp only [checkEntries, yields_bind, yields_store, yields_ite]
  exact ⟨fun _ => yields_crash _ _, fun _ => (yields_pure _ _).mpr rfl⟩

theorem close_accounted {between : World Rat (Merging Rat σ)} {time : Rat}
    (spent : Spent world time between) (request : Request) :
    (do
      record (.request request) time 1
      checkEntries
      return time : Sim Rat (Merging Rat σ) Rat).Yields between (Accounted world) := by
  simp only [record, yields_bind, yields_update]
  refine (checkEntries_kept _).mono ?_
  rintro _ _ rfl
  rw [yields_pure]
  have recorded := OperationLedger.totalTime_record between.store.ledger request time 1
  rw [spent.unrecorded] at recorded
  refine ⟨⟨spent.spends, recorded⟩, Eq.trans ?_ spent.parts⟩
  cases request <;> rfl

theorem onWrapped_spent {action : Sim Rat σ Rat} (world : World Rat (Merging Rat σ))
    (accounted : action.Yields ⟨world.store.wrapped, world.machine⟩
      (EntryStore.Accounted ⟨world.store.wrapped, world.machine⟩)) :
    (onWrapped action).Yields world (Spent world) := by
  simp only [onWrapped, yields_zoom]
  refine accounted.mono ?_
  intro time after paid
  refine ⟨paid.spends, ?_, rfl⟩
  simp only [seconds, paid.recorded]
  ring

theorem touchCold_spent (lookup : Lookup) (entries : Nat) (world : World Rat (Merging Rat σ)) :
    (touchCold lookup entries).Yields world fun cost after => Spent world cost.time after := by
  simp only [touchCold, onCold, yields_bind, yields_zoom]
  refine (ColdTier.locate_kept lookup entries _).mono ?_
  intro located between kept
  refine (ColdTier.touch_spends located _).mono ?_
  rintro cost after ⟨spends, free⟩
  rw [kept] at spends
  cases located with
  | nil =>
      simp only [List.isEmpty_nil, Bool.not_true, Bool.false_eq_true, if_false, yields_pure]
      have none := free rfl
      refine ⟨spends, ?_, rfl⟩
      rw [none, add_zero]
      rfl
  | cons part rest =>
      simp only [List.isEmpty_cons, Bool.not_false, if_true, record, yields_bind, yields_update,
        yields_pure]
      refine ⟨spends, ?_, rfl⟩
      change (world.store.ledger.seconds (.time .invalidation) + cost.invalidationTime) +
        (world.store.ledger.seconds (.time .loading) + cost.loadingTime) +
        (EntryStore.ledger world.store.wrapped).seconds .totalTime = world.store.seconds + cost.time
      simp only [seconds, TouchCost.time]
      ring

/-- Of a run that adds to a time, what it adds is spent. -/
def Adds (action : Sim Rat (Merging Rat σ) Rat) (time : Rat) (world : World Rat (Merging Rat σ)) :
    Prop :=
  action.Yields world fun total after => Spent world (total - time) after

theorem findWrapped_adds (accounts : EntryStore.Meets (EntryStore.Accounted (σ := σ)))
    (lookup : Lookup) (entries repeats : Nat) (time : Rat) (world : World Rat (Merging Rat σ)) :
    Adds (findWrapped lookup entries repeats time) time world := by
  simp only [Adds, findWrapped, yields_bind, yields_pure, add_sub_cancel_left]
  exact onWrapped_spent world (accounts.find lookup entries repeats _)

theorem deleteWrapped_adds (accounts : EntryStore.Meets (EntryStore.Accounted (σ := σ)))
    (entries : Nat) (time : Rat) (world : World Rat (Merging Rat σ)) :
    Adds (deleteWrapped entries time) time world := by
  simp only [Adds, deleteWrapped, yields_bind, yields_pure, add_sub_cancel_left]
  exact onWrapped_spent world (accounts.delete entries _)

theorem migrate_spent (accounts : EntryStore.Meets (EntryStore.Accounted (σ := σ)))
    (lookup : Lookup) (entries : Nat) (time : Rat) (world : World Rat (Merging Rat σ)) :
    (migrate lookup entries time).Yields world fun moved after =>
      Spent world (moved.2 - time) after := by
  simp only [migrate, yields_bind, yields_pure]
  refine (touchCold_spent lookup entries world).mono ?_
  intro cost between touched
  refine (onWrapped_spent between (accounts.insert cost.entries _)).mono ?_
  intro inserted after moved
  exact touched.trans moved (by ring)

theorem findCold_adds (accounts : EntryStore.Meets (EntryStore.Accounted (σ := σ)))
    (lookup : Lookup) (entries repeats : Nat) (time : Rat) (world : World Rat (Merging Rat σ)) :
    Adds (findCold lookup entries repeats time) time world := by
  rw [Adds, findCold, yields_bind]
  refine (migrate_spent accounts lookup entries time world).mono ?_
  rintro ⟨moved, total⟩ between migrated
  simp only [yields_ite, yields_pure]
  refine ⟨fun _ => ?_, fun _ => migrated⟩
  refine (findWrapped_adds accounts lookup moved (repeats - 1) total between).mono ?_
  intro repeated after found
  exact migrated.trans found (by ring)

theorem deleteCold_adds (accounts : EntryStore.Meets (EntryStore.Accounted (σ := σ)))
    (entries : Nat) (time : Rat) (world : World Rat (Merging Rat σ)) :
    Adds (deleteCold entries time) time world := by
  rw [Adds, deleteCold, yields_bind]
  refine (migrate_spent accounts .point entries time world).mono ?_
  rintro ⟨moved, total⟩ between migrated
  refine (deleteWrapped_adds accounts moved total between).mono ?_
  intro deleted after left
  exact migrated.trans left (by ring)

theorem split_spent (entries : Nat) (world : World Rat (Merging Rat σ)) :
    (split entries).Yields world fun _ after => Spent world 0 after := by
  simp only [split, yields_bind, yields_store, yields_orCrash, yields_update, yields_pure]
  intro parts _
  exact ⟨.nothing world.machine, (add_zero _).symm, rfl⟩

theorem Adds.unless {action : Sim Rat (Merging Rat σ) Rat} {time : Rat}
    {world : World Rat (Merging Rat σ)} {none : Prop} [Decidable none]
    (adds : Adds action time world) : Adds (if none then pure time else action) time world := by
  rw [Adds, yields_ite, yields_pure, sub_self]
  exact ⟨fun _ => .nothing world, fun _ => adds⟩

theorem find_accounted (accounts : EntryStore.Meets (EntryStore.Accounted (σ := σ)))
    (lookup : Lookup) (entries repeats : Nat) (world : World Rat (Merging Rat σ)) :
    (find lookup entries repeats).Yields world (Accounted world) := by
  simp only [find, branches_bind]
  rw [yields_bind, yields_store, yields_ite]
  refine ⟨fun _ => (yields_pure _ _).mpr (.nothing world), fun _ => ?_⟩
  rw [yields_bind]
  refine (split_spent _ world).mono ?_
  intro parts begun split
  rw [yields_bind]
  refine (findWrapped_adds accounts lookup parts.hot repeats Scalar.zero begun).unless.mono ?_
  intro hotTime between hot
  rw [yields_bind]
  refine (findCold_adds accounts lookup parts.cold repeats hotTime between).unless.mono ?_
  intro time after cold
  have spent : Spent world time after :=
    split.trans (hot.trans cold rfl) (by simp [Scalar.zero, Scalar.ofNat])
  exact close_accounted spent lookup.request

theorem insert_accounted (accounts : EntryStore.Meets (EntryStore.Accounted (σ := σ)))
    (entries : Nat) (world : World Rat (Merging Rat σ)) :
    (insert entries).Yields world (Accounted world) := by
  rw [insert, yields_ite]
  refine ⟨fun _ => (yields_pure _ _).mpr (.nothing world), fun _ => ?_⟩
  rw [yields_bind]
  refine (onWrapped_spent world (accounts.insert entries _)).mono ?_
  intro time between spent
  rw [yields_bind, yields_update]
  have grown : Spent world time ⟨{ between.store with
      expectedEntries := between.store.expectedEntries + entries }, between.machine⟩ :=
    ⟨spent.spends, spent.parts, spent.unrecorded⟩
  exact close_accounted grown .insert

theorem expectFewer_kept (entries : Nat) (world : World Rat (Merging Rat σ)) :
    (expectFewer entries).Yields world fun _ after => Spent world 0 after := by
  simp only [expectFewer, yields_bind, yields_store, yields_ite, yields_update]
  exact ⟨fun _ => yields_crash _ _, fun _ => ⟨.nothing world.machine, (add_zero _).symm, rfl⟩⟩

theorem delete_accounted (accounts : EntryStore.Meets (EntryStore.Accounted (σ := σ)))
    (entries : Nat) (world : World Rat (Merging Rat σ)) :
    (delete entries).Yields world (Accounted world) := by
  simp only [delete, branches_bind]
  rw [yields_bind, yields_store, yields_ite]
  refine ⟨fun _ => (yields_pure _ _).mpr (.nothing world), fun _ => ?_⟩
  rw [yields_bind]
  refine (split_spent _ world).mono ?_
  intro parts begun split
  rw [yields_bind]
  refine (deleteWrapped_adds accounts parts.hot Scalar.zero begun).unless.mono ?_
  intro hotTime between hot
  rw [yields_bind]
  refine (deleteCold_adds accounts parts.cold hotTime between).unless.mono ?_
  intro time after cold
  rw [yields_bind]
  refine (expectFewer_kept _ after).mono ?_
  intro _ fewer expected
  have spent : Spent world time after :=
    split.trans (hot.trans cold rfl) (by simp [Scalar.zero, Scalar.ofNat])
  exact close_accounted (spent.trans expected (add_zero _).symm) .delete

theorem accounted (accounts : EntryStore.Meets (EntryStore.Accounted (σ := σ))) :
    EntryStore.Meets (Accounted (σ := σ)) where
  insert := insert_accounted accounts
  bulkload := fun _ world => by
    simp only [EntryStore.bulkload, refuseBulkload, yields_bind, yields_store]
    exact yields_throw _ _
  find := find_accounted accounts
  delete := delete_accounted accounts

end Merging

theorem Stack.accounted (depth : Nat) :
    EntryStore.Meets (EntryStore.Accounted (σ := Stack Rat depth)) := by
  induction depth with
  | zero => exact BTree.accounted
  | succ depth ih =>
      exact (Merging.accounted ih).mono fun _ _ _ accounted => accounted.toAccounted

/-! Indexes -/

namespace Index

/-- The seconds in the three parts of the ledgers of a merging index. -/
def partSeconds? : Index Rat → Option Rat
  | ⟨0, _, _⟩ => none
  | ⟨_ + 1, merging, _⟩ => some (Merging.seconds (merging : Merging Rat (Stack Rat _)))

/-- A request that ends well gives the time of the accesses that it has made. The ledger of the disk
and that of the index grow by the same, and so do, where there is a cold side, the times of
invalidation and of loading and those of the wrapped index together. -/
theorem call_accounted {index after : Index Rat} {call : Call Rat} {time : Rat}
    (request : call.isRequest) (called : index.call call = .ok (.ok time, after)) :
    index.machine.Spends time after.machine ∧
      after.ledger.seconds .totalTime = index.ledger.seconds .totalTime + time ∧
      after.partSeconds? = index.partSeconds?.map (· + time) := by
  obtain ⟨depth, stack, machine⟩ := index
  obtain ⟨⟨result, world⟩, ran, rest⟩ := Except.exists_of_bind called
  cases rest
  have accounted := (Stack.accounted depth).call request ⟨stack, machine⟩ time world ran
  refine ⟨accounted.spends, accounted.recorded, ?_⟩
  cases depth with
  | zero => rfl
  | succ depth =>
      have parts := (Merging.accounted (Stack.accounted depth)).call request ⟨stack, machine⟩ time
        world ran
      exact congrArg some parts.parts

theorem call_accounted_of_find :
    ∃ tree index : Index Rat,
      Index.tree (.create (.ssd ⟨⟨"SSD", 4, 8, 1, 2, 1, 1, 3, 1⟩, 0, 0⟩)) 1 1 16 = .ok tree ∧
      tree.eager 4 5 = .ok index ∧
      ∃ time after, index.call (.find .point 3 2) = .ok (.ok time, after) ∧
        index.machine.Spends time after.machine ∧
        after.ledger.seconds .totalTime = index.ledger.seconds .totalTime + time ∧
        after.partSeconds? = index.partSeconds?.map (· + time) := by
  obtain ⟨tree, planted⟩ : ∃ tree : Index Rat,
      Index.tree (.create (.ssd ⟨⟨"SSD", 4, 8, 1, 2, 1, 1, 3, 1⟩, 0, 0⟩)) 1 1 16 = .ok tree :=
    ⟨_, rfl⟩
  obtain ⟨index, built⟩ : ∃ index, tree.eager 4 5 = .ok index := by
    cases planted
    exact ⟨_, rfl⟩
  have settled := (Reachable.wrap (.tree planted) (.eager built)).settled
  obtain ⟨result, after, called, _, _, _, plain⟩ := call_exists settled (.find .point 3 2)
  obtain ⟨time, rfl⟩ := plain rfl
  exact ⟨tree, index, planted, built, time, after, called, call_accounted rfl called⟩

end Index

end MergeCost
