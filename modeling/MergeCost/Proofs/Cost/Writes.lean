import MergeCost.Proofs.Index.Counts
import MergeCost.Proofs.Index.Limits

/-!
What adaptive merging over a tree writes in a whole run. It only ever replaces what is there: a leaf
for each entry that goes into the tree or is deleted there, and on top of that the entries that
leave the cold side in place, or the live bytes of the passes where invalidation is put off.
-/

namespace MergeCost

open Sim

variable {τ : Type}

namespace Call

/-- The entries that a call inserts. -/
def inserted : Call τ → Nat
  | insert entries => entries
  | _ => 0

/-- The entries that a call deletes from an index with so many. -/
def deleted (available : Nat) : Call τ → Nat
  | delete entries => min entries available
  | _ => 0

theorem changes_find? (lookup : Lookup) (entries repeats available : Nat) :
    (Demand.find? lookup entries repeats available).elim 0 Demand.inserted = 0 ∧
      (Demand.find? lookup entries repeats available).elim 0 Demand.deleted = 0 := by
  unfold Demand.find?
  split
  · exact ⟨rfl, rfl⟩
  · cases lookup <;> exact ⟨rfl, rfl⟩

theorem changes_demand? [Scalar τ] (available : Nat) (call : Call τ) :
    (call.demand? available).elim 0 Demand.inserted = call.inserted ∧
      (call.demand? available).elim 0 Demand.deleted = call.deleted available := by
  cases call with
  | insert entries =>
      by_cases nothing : entries = 0 <;>
        simp [demand?, inserted, deleted, Demand.inserted, Demand.deleted, nothing]
  | find lookup entries repeats => exact changes_find? lookup entries repeats available
  | findShare lookup share repeats =>
      simp only [demand?]
      cases entriesOfShare available share with
      | error refusal => exact ⟨rfl, rfl⟩
      | ok entries => exact changes_find? lookup entries repeats available
  | delete entries =>
      by_cases nothing : min entries available = 0 <;>
        simp [demand?, Demand.delete?, inserted, deleted, Demand.inserted, Demand.deleted, nothing]
  | bulkload | access | resetLedgers => exact ⟨rfl, rfl⟩

end Call

namespace Merging

/-- What steps over a tree have written: so many leaves have been replaced, and so many entries have
left the cold side. -/
structure Writes (before : World τ (Merging τ (BTree τ))) (leaves moved : Nat)
    (after : World τ (Merging τ (BTree τ))) : Prop where
  nodeSize_eq : after.store.wrapped.nodeSize = before.store.wrapped.nodeSize
  cold_eq : after.store.cold.entries + moved = before.store.cold.entries
  volume : ∃ touches invalidations bytes rewritten,
    before.machine.Overwrites (leaves * before.store.wrapped.nodeSize + bytes) rewritten
      after.machine ∧
    before.store.cold.Goes touches invalidations after.store.cold ∧
    before.store.cold.Overwritten moved invalidations bytes rewritten

variable {before after first second third : World τ (Merging τ (BTree τ))}

theorem Writes.trans {leaves moved moreLeaves moreMoved : Nat}
    (start : Writes first leaves moved second) (rest : Writes second moreLeaves moreMoved third) :
    Writes first (leaves + moreLeaves) (moved + moreMoved) third := by
  obtain ⟨touches, invalidations, bytes, rewritten, overwrites, goes, overwritten⟩ := start.volume
  obtain ⟨moreTouches, moreInvalidations, moreBytes, moreRewritten, more, goesOn,
    moreOverwritten⟩ := rest.volume
  have cold := start.cold_eq
  have moreCold := rest.cold_eq
  refine ⟨rest.nodeSize_eq.trans start.nodeSize_eq, by omega, touches + moreTouches,
    invalidations + moreInvalidations, bytes + moreBytes, rewritten ++ moreRewritten, ?_,
    goes.trans goesOn, overwritten.trans goes moreOverwritten⟩
  rw [start.nodeSize_eq] at more
  rw [Nat.add_mul, Nat.add_add_add_comm]
  exact overwrites.trans more

/-! What has been overwritten, by the way in which the cold side is charged -/

section Volume

variable {leaves moved : Nat} (writes : Writes before leaves moved after)
include writes

theorem Writes.write_eq :
    (after.machine.disk.total.traffic .write).bytes =
      (before.machine.disk.total.traffic .write).bytes := by
  obtain ⟨_, _, _, _, overwrites, _⟩ := writes.volume
  exact overwrites.write_eq

theorem Writes.overwrite_inPlace {store : PartitionStore} (cold : before.store.cold = .plain store)
    (mode : store.invalidation = .inPlace) :
    (after.machine.disk.total.traffic .overwrite).bytes =
      (before.machine.disk.total.traffic .overwrite).bytes +
      (leaves * before.store.wrapped.nodeSize + moved * store.recordSize) := by
  obtain ⟨_, _, bytes, _, overwrites, _, overwritten⟩ := writes.volume
  rw [← overwritten.inPlace store cold mode]
  exact overwrites.overwrite_eq

theorem Writes.overwrite_grouped {store : GroupedStore τ}
    (cold : before.store.cold = .grouped store) :
    ∃ rewritten left, after.store.cold = .grouped left ∧
      left.passes = store.passes + rewritten.length ∧
      after.machine.rewritten = before.machine.rewritten ++ rewritten ∧
      (after.machine.disk.total.traffic .overwrite).bytes =
      (before.machine.disk.total.traffic .overwrite).bytes +
        (leaves * before.store.wrapped.nodeSize + rewritten.sum) := by
  obtain ⟨_, invalidations, bytes, rewritten, overwrites, goes, overwritten⟩ := writes.volume
  obtain ⟨rfl, rfl⟩ := overwritten.grouped store cold
  rw [cold] at goes
  obtain ⟨left, leftCold, advances, _⟩ := goes.of_grouped
  exact ⟨rewritten, left, leftCold, advances.passes_eq, overwrites.rewritten_eq,
    overwrites.overwrite_eq⟩

end Volume

/-! Steps and requests -/

theorem Writes.of_idle {merging after : Merging τ (BTree τ)} {machine : Machine τ}
    (wrapped : after.wrapped = merging.wrapped) (cold : after.cold.entries = merging.cold.entries)
    (goes : merging.cold.Goes 0 0 after.cold) : Writes ⟨merging, machine⟩ 0 0 ⟨after, machine⟩ := by
  refine ⟨congrArg BTree.nodeSize wrapped, cold, 0, 0, 0, [], ?_, goes, .nothing _⟩
  simp only [Nat.zero_mul]
  exact .nothing machine

variable [Scalar τ] {Valid : BTree τ → Prop} {deeds : List Deed}

/-- Requests to the tree leave the cold side alone. -/
theorem Writes.of_serves {merging : Merging τ (BTree τ)} {tree : BTree τ}
    {machine finish : Machine τ} {insertions leaves : Nat}
    (serves : BTree.Serves ⟨merging.wrapped, machine⟩ insertions leaves ⟨tree, finish⟩) :
    Writes ⟨merging, machine⟩ leaves 0 ⟨{ merging with wrapped := tree }, finish⟩ :=
  ⟨serves.nodeSize_eq, rfl, 0, 0, 0, [], serves.overwrites, .nothing _, .nothing _⟩

theorem Step.writes (conserves : EntryStore.Conserves Valid) {deed? : Option Deed}
    (step : Step Valid before deed? after) :
    Writes before ((deed?.toList.map Deed.inserted).sum + (deed?.toList.map Deed.deleted).sum)
      (deed?.toList.map Deed.moved).sum after := by
  have cold := (step.leaves conserves).cold
  cases step with
  | carry carry => exact .of_idle rfl cold (.nothing _)
  | expect expectedEntries => exact .of_idle rfl cold (.nothing _)
  | seek point range sound => exact .of_idle rfl cold (.seek _ point range)
  | @find merging _ machine _ lookup entries repeats _ valid found =>
      exact .of_serves
        (BTree.find_serves lookup entries repeats ⟨merging.wrapped, machine⟩ _ _ found)
  | @insert merging _ machine _ entries _ valid something inserted =>
      exact .of_serves (BTree.insert_serves something ⟨merging.wrapped, machine⟩ _ _ inserted)
  | @delete merging _ machine _ entries _ valid enough deleted =>
      have serves : BTree.Serves _ 0 (min entries (EntryStore.entries merging.wrapped)) _ :=
        BTree.delete_serves entries ⟨merging.wrapped, machine⟩ _ _ deleted
      rw [Nat.min_eq_left enough] at serves
      simpa [Deed.inserted, Deed.deleted, Deed.moved] using Writes.of_serves serves
  | @touch merging _ machine _ located cost valid something allots touched =>
      obtain ⟨bytes, rewritten, overwrites, overwritten⟩ :=
        ColdTier.touch_overwrites located ⟨merging.cold, machine⟩ _ _ touched
      obtain ⟨goes, _⟩ := ColdTier.touch_goes valid something allots.inRange touched
      refine ⟨rfl, cold, 1, cost.invalidations, bytes, rewritten, ?_, goes, overwritten⟩
      simpa [Deed.inserted, Deed.deleted] using overwrites

theorem Does.writes (conserves : EntryStore.Conserves Valid)
    (does : Does Valid before deeds after) :
    Writes before ((deeds.map Deed.inserted).sum + (deeds.map Deed.deleted).sum)
      (deeds.map Deed.moved).sum after := by
  induction does with
  | done => exact .of_idle rfl rfl (.nothing _)
  | step next _ ih =>
      have writes := (next.writes conserves).trans ih
      simp only [List.map_append, List.sum_append]
      rwa [Nat.add_add_add_comm] at writes

theorem Serves.writes (conserves : EntryStore.Conserves Valid) {demand : Demand}
    (serves : Serves Valid before demand.request (before.store.level.deeds demand) after) :
    ∃ moved, Writes before (demand.inserted + demand.deleted + moved) moved after := by
  obtain ⟨between, time, does, rfl⟩ := serves
  have writes := does.writes conserves
  rw [Level.inserted_deeds, Level.deleted_deeds, Nat.add_right_comm] at writes
  exact ⟨_, writes.nodeSize_eq, writes.cold_eq, writes.volume⟩

/-- A leaf is replaced for each entry that is demanded, and for each one that is moved. -/
theorem Answers.writes (conserves : EntryStore.Conserves Valid) {demand? : Option Demand}
    (answers : Answers Valid before demand? after) :
    ∃ moved, Writes before
      (demand?.elim 0 Demand.inserted + demand?.elim 0 Demand.deleted + moved) moved after := by
  cases demand? with
  | none =>
      cases answers
      exact ⟨0, .of_idle rfl rfl (.nothing _)⟩
  | some demand => exact Serves.writes conserves answers

end Merging

namespace Index

variable [Scalar τ] {tree index after : Index τ}

/-- The entries that the calls of a run delete. -/
def deleted (index : Index τ) (calls : List (Call τ)) : Nat :=
  ((index.history calls).map fun step => step.2.deleted step.1.entries).sum

theorem call_writes {merging : Merging τ (BTree τ)} {machine : Machine τ} {call : Call τ}
    {result : Except (Error τ) τ} (settled : Index.Settled ⟨1, merging, machine⟩)
    (request : call.isRequest)
    (called : Index.call ⟨1, merging, machine⟩ call = .ok (result, after)) :
    ∃ (left : Merging τ (BTree τ)) (finish : Machine τ) (moved : Nat), after = ⟨1, left, finish⟩ ∧
      Merging.Writes ⟨merging, machine⟩ (call.inserted + call.deleted merging.entries + moved) moved
        ⟨left, finish⟩ := by
  obtain ⟨_, left, finish, ran, _, answers, _⟩ :=
    Merging.call_answers (Stack.conserves 0) settled call machine
  rw [call_of_outcome ran] at called
  cases called
  obtain ⟨inserted, deleted⟩ := call.changes_demand? merging.entries
  rw [← inserted, ← deleted]
  obtain ⟨moved, writes⟩ := (answers request).writes (Stack.conserves 0)
  exact ⟨left, finish, moved, rfl, writes⟩

theorem Runs.writes {merging : Merging τ (BTree τ)} {machine : Machine τ}
    {history : List (Index τ × Call τ)} (runs : Runs ⟨1, merging, machine⟩ history after)
    (requests : ∀ call ∈ history.map Prod.snd, call.isRequest) :
    ∃ (left : Merging τ (BTree τ)) (finish : Machine τ) (moved : Nat), after = ⟨1, left, finish⟩ ∧
      Merging.Writes ⟨merging, machine⟩ (((history.map Prod.snd).map Call.inserted).sum +
        (history.map fun step => step.2.deleted step.1.entries).sum + moved) moved
        ⟨left, finish⟩ := by
  generalize shape : (⟨1, merging, machine⟩ : Index τ) = index at runs
  induction runs generalizing merging machine with
  | nil =>
      cases shape
      exact ⟨merging, machine, 0, rfl, .of_idle rfl rfl (.nothing _)⟩
  | @cons _ _ _ call _ _ settled called rest ih =>
      cases shape
      obtain ⟨(request : call.isRequest), others⟩ := List.forall_mem_cons.mp requests
      obtain ⟨between, start, moved, rfl, first⟩ := call_writes settled request called
      obtain ⟨left, finish, moreMoved, rfl, more⟩ := ih others rfl
      refine ⟨left, finish, moved + moreMoved, rfl, ?_⟩
      have available : Index.entries ⟨1, merging, machine⟩ = merging.entries := rfl
      have writes := first.trans more
      simp only [List.map_cons, List.sum_cons, available]
      convert writes using 1
      omega

/-- Whatever is asked of adaptive merging over a new tree, in words the run is the one that counts
exactly, or it breaks off since some of the requests leave more than words can hold. Nothing is
written that was not there before. A leaf is overwritten for each entry that is inserted, moved or
deleted. In place, each entry that is moved is overwritten once more by itself; where invalidation
is put off, it is the live bytes of the passes that are overwritten besides. -/
theorem run_writes {device : Device τ}
    {keySize dataSize nodeSize partitionSize startingEntries : Nat}
    (planted : Index.tree (.create device) keySize dataSize nodeSize = .ok tree)
    (wraps : Wraps partitionSize startingEntries tree index) {calls : List (Call τ)}
    (requests : ∀ call ∈ calls, call.isRequest) :
    ∃ results after level moved, index.run calls = .ok (results, after) ∧
      (index.runInWords calls = .ok (results, after) ∨
        (index.runInWords calls = .error .overflow ∧ ∃ earlier done between, earlier <+: calls ∧
          index.run earlier = .ok (done, between) ∧ ¬between.Roomy)) ∧
      after.level? = some level ∧
      index.level?.map Level.variant = some level.variant ∧
      level.cold.entries + moved = startingEntries ∧
      after.machine.disk.total.value (.bytes .write) = .count 0 ∧
      (level.variant = .inPlace →
        after.machine.disk.total.value (.bytes .overwrite) =
          .count (nodeSize * ((calls.map Call.inserted).sum + moved + index.deleted calls) +
            (keySize + dataSize) * moved)) ∧
      (level.variant = .deferred → ∃ store, level.cold = .grouped store ∧
        after.machine.rewritten.length = store.passes ∧
        after.machine.disk.total.value (.bytes .overwrite) =
          .count (nodeSize * ((calls.map Call.inserted).sum + moved + index.deleted calls) +
            after.machine.rewritten.sum)) := by
  have settled : index.Settled := (Reachable.wrap (.tree planted) wraps).settled
  obtain ⟨results, after, ran, _, runs, whole⟩ := runs_exists settled calls
  have merges : EntryStore.canBulkload index.stack = false := by
    obtain ⟨_, _, _, _, rfl⟩ := wraps.charges
    rfl
  have inWords := runInWords_limits settled merges calls
  rw [ran] at inWords
  obtain ⟨cold, entries, recordSize, new, rfl⟩ := wraps.charges
  obtain ⟨root, created, rest⟩ := Except.exists_of_bind planted
  cases rest
  obtain ⟨nodeSizeEq, recordSizeEq⟩ := BTree.create_sizes created
  let start : Merging τ (BTree τ) := .create cold.variant root cold
  let machine := (Machine.create (Disk.create device)).emit (start.creation device)
  have startViewed : Index.level? ⟨1, start, machine⟩ = some start.level := rfl
  have runs : Runs ⟨1, start, machine⟩ _ after := runs
  rw [← whole] at requests
  obtain ⟨left, finish, moved, rfl, writes⟩ := runs.writes requests
  obtain ⟨level, viewed, grows⟩ := runs.grows startViewed
  have variant : left.level.variant = cold.variant := by
    cases viewed
    exact grows.variant_eq
  have size : start.wrapped.nodeSize = nodeSize := nodeSizeEq
  have nothing (kind : Access) : (machine.disk.total.traffic kind).bytes = 0 :=
    congrArg Traffic.bytes (AccessLedger.traffic_empty kind)
  have none : machine.rewritten = [] := rfl
  refine ⟨results, _, left.level, moved, ran, inWords, rfl, ?_, writes.cold_eq.trans entries,
    ?_, ?_, ?_⟩
  · rw [variant]
    rfl
  · rw [AccessLedger.value_bytes, writes.write_eq]
    exact congrArg Reading.count (nothing .write)
  · intro inPlace
    rw [variant] at inPlace
    obtain ⟨store, rfl, mode⟩ := ColdTier.exists_of_inPlace inPlace
    have record : store.recordSize = keySize + dataSize := recordSize.trans recordSizeEq
    have volume := writes.overwrite_inPlace rfl mode
    simp only [whole, size, nothing, record] at volume
    rw [AccessLedger.value_bytes, volume, deleted, Reading.count.injEq]
    ring
  · intro deferred
    rw [variant] at deferred
    obtain ⟨store, rfl⟩ := ColdTier.exists_of_deferred deferred
    obtain ⟨rewritten, last, lastCold, passes, reported, volume⟩ := writes.overwrite_grouped rfl
    rw [none, List.nil_append] at reported
    rw [new store rfl, Nat.zero_add] at passes
    simp only [whole, size, nothing] at volume
    refine ⟨last, lastCold, ?_, ?_⟩
    · rw [reported, passes]
    · rw [AccessLedger.value_bytes, volume, reported, deleted, Reading.count.injEq]
      ring

theorem run_writes_of_merging_in_place :
    ∃ tree index : Index Rat,
      Index.tree (.create (.pcm ⟨⟨"PCM", 64, 1, 2⟩, 0⟩)) 1 1 8 = .ok tree ∧
      tree.inPlace 4 3 = .ok index ∧
      ∃ results after level moved,
        index.runInWords [.find .point 1 2, .delete 2, .insert 1] = .ok (results, after) ∧
        after.level? = some level ∧ level.cold.entries + moved = 3 ∧
        after.machine.disk.total.value (.bytes .write) = .count 0 ∧
        after.machine.disk.total.value (.bytes .overwrite) =
          .count (8 * (1 + moved + 2) + 2 * moved) := by
  let calls : List (Call Rat) := [.find .point 1 2, .delete 2, .insert 1]
  obtain ⟨tree, index, planted, built, variant, two, ended⟩ : ∃ tree index : Index Rat,
      Index.tree (.create (.pcm ⟨⟨"PCM", 64, 1, 2⟩, 0⟩)) 1 1 8 = .ok tree ∧
      tree.inPlace 4 3 = .ok index ∧
      index.level?.map Level.variant = some .inPlace ∧
      index.deleted [.find .point 1 2, .delete 2, .insert 1] = 2 ∧
      (index.runInWords [.find .point 1 2, .delete 2, .insert 1]).isOk := by
    refine ⟨_, _, rfl, rfl, rfl, ?deleted, ?ended⟩
    case deleted => cbv
    case ended => cbv
  have requests : ∀ call ∈ calls, call.isRequest := by simp [calls, Call.isRequest]
  obtain ⟨results, after, level, moved, -, inWords, viewed, same, cold, write, overwrite, _⟩ :=
    run_writes planted (.inPlace built) requests
  have ran : index.runInWords calls = .ok (results, after) :=
    inWords.resolve_right fun broken => by cases (congrArg Except.isOk broken.1).symm.trans ended
  rw [variant, Option.some.injEq] at same
  have volume := overwrite same.symm
  rw [two] at volume
  exact ⟨tree, index, planted, built, results, after, level, moved, ran, viewed, cold, write,
    volume⟩

end Index

end MergeCost
