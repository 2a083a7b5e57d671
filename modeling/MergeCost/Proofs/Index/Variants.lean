import MergeCost.Proofs.Index.Reachable

/-!
Indexes that differ in how they are charged. Around indexes of the same size, every variant on every
device routes the same requests in the same way: accesses to the disk, its timings and its wear, the
nodes of the wrapped index and the passes of reorganization have no influence on it.
-/

namespace MergeCost

open Sim

variable {τ : Type}

theorem PartitionStore.create_bare {total recordSize partitionSize : Nat}
    {firstInvalidation secondInvalidation : Invalidation} {first second : PartitionStore}
    (firstCreated : (create total recordSize partitionSize firstInvalidation :
      Except (Error τ) PartitionStore) = .ok first)
    (secondCreated : (create total recordSize partitionSize secondInvalidation :
      Except (Error τ) PartitionStore) = .ok second) :
    first.bare = second.bare := by
  unfold create at firstCreated secondCreated
  split at firstCreated
  · contradiction
  · rename_i someRecord
    rw [if_neg someRecord] at secondCreated
    simp only at firstCreated secondCreated
    split at firstCreated
    · contradiction
    · rename_i someEntry
      rw [if_neg someEntry] at secondCreated
      cases firstCreated
      cases secondCreated
      rfl

variable [Scalar τ]

namespace Routing

def start (base : PartitionStore) (hot : Nat) : Routing τ :=
  ⟨base.partitions, base.pointCursor, base.rangeCursor, Scalar.zero, hot, fun _ => 0, 0⟩

/-- A routing follows a call by itself. -/
def call (routing : Routing τ) : Call τ → Except Fault (Routing τ)
  | .insert entries => .ok (routing.insert entries)
  | .find lookup entries repeats => routing.find lookup entries repeats
  | .findShare lookup share repeats =>
      match entriesOfShare routing.entries share with
      | .ok entries => routing.find lookup entries repeats
      | .error _ => .ok routing
  | .delete entries => routing.delete entries
  | .bulkload _ | .access .. | .resetLedgers => .ok routing

def run (routing : Routing τ) (calls : List (Call τ)) : Except Fault (Routing τ) :=
  calls.foldlM call routing

theorem run_requests (routing : Routing τ) (calls : List (Call τ)) :
    routing.run (calls.filter Call.isRequest) = routing.run calls := by
  induction calls generalizing routing with
  | nil => rfl
  | cons call rest ih =>
      by_cases request : call.isRequest
      · simp only [List.filter_cons, request, if_true, run, List.foldlM_cons]
        cases routing.call call with
        | error fault => rfl
        | ok after => exact ih after
      · have idle : routing.call call = .ok routing := by
          cases call <;> first | rfl | exact absurd rfl request
        simp only [List.filter_cons, request, Bool.false_eq_true, if_false, run, List.foldlM_cons,
          idle]
        exact ih routing

end Routing

theorem Merging.call_exists {σ : Type} [EntryStore τ σ] {Valid : σ → Prop} {merging : Merging τ σ}
    (conserves : EntryStore.Conserves Valid) (settled : merging.Settled Valid) (call : Call τ)
    (machine : Machine τ) :
    ∃ result after machine', outcome call.action ⟨merging, machine⟩ =
        .ok (result, ⟨after, machine'⟩) ∧
      after.Settled Valid ∧ merging.routing.call call = .ok after.routing := by
  cases call with
  | insert added =>
      obtain ⟨time, after, finish, ran, still, _, routed⟩ :=
        Merging.insert_exists conserves settled added machine
      exact ⟨.ok time, after, finish, ran, still, congrArg Except.ok routed.symm⟩
  | bulkload added => exact ⟨_, merging, machine, rfl, settled, rfl⟩
  | find lookup wanted repeats =>
      obtain ⟨time, after, finish, ran, still, _, routed⟩ :=
        Merging.find_exists conserves settled lookup wanted repeats machine
      exact ⟨.ok time, after, finish, ran, still, routed⟩
  | findShare lookup share repeats =>
      have shared := EntryStore.outcome_findShare lookup share repeats ⟨merging, machine⟩
      have entries : merging.routing.entries = EntryStore.entries merging := rfl
      cases wanted : entriesOfShare (EntryStore.entries merging) share with
      | error refusal =>
          simp only [wanted] at shared
          refine ⟨.error refusal, merging, machine, shared, settled, ?_⟩
          simp only [Routing.call, entries, wanted]
      | ok count =>
          obtain ⟨time, after, finish, ran, still, _, routed⟩ :=
            Merging.find_exists conserves settled lookup count repeats machine
          simp only [wanted] at shared
          refine ⟨.ok time, after, finish, shared.trans ran, still, ?_⟩
          simp only [Routing.call, entries, wanted, routed]
  | delete removed =>
      obtain ⟨time, after, finish, ran, still, _, routed⟩ :=
        Merging.delete_exists conserves settled removed machine
      exact ⟨.ok time, after, finish, ran, still, routed⟩
  | access kind bytes =>
      exact ⟨_, merging, _, outcome_access kind bytes ⟨merging, machine⟩, settled, rfl⟩
  | resetLedgers => exact ⟨_, merging, _, rfl, settled, rfl⟩

namespace Index

/-- The routing of the outermost level, if it has a cold side. -/
def routing? : Index τ → Option (Routing τ)
  | ⟨0, _, _⟩ => none
  | ⟨_ + 1, merging, _⟩ => some (Merging.routing (merging : Merging τ (Stack τ _)))

variable {index : Index τ} {routing : Routing τ}

theorem call_routing (settled : index.Settled) (routed : index.routing? = some routing)
    (call : Call τ) :
    ∃ result after left, index.call call = .ok (result, after) ∧ after.Settled ∧
      routing.call call = .ok left ∧ after.routing? = some left := by
  obtain ⟨depth, stack, machine⟩ := index
  cases depth with
  | zero => cases routed
  | succ depth =>
      cases routed
      obtain ⟨result, after, finish, ran, still, left⟩ :=
        Merging.call_exists (Stack.conserves depth) settled call machine
      exact ⟨result, ⟨depth + 1, after, finish⟩, after.routing, call_of_outcome ran, still, left,
        rfl⟩

theorem run_routing (settled : index.Settled) (routed : index.routing? = some routing)
    (calls : List (Call τ)) :
    ∃ results after left, index.run calls = .ok (results, after) ∧
      routing.run calls = .ok left ∧ after.routing? = some left := by
  induction calls generalizing index routing with
  | nil => exact ⟨[], index, routing, rfl, rfl, routed⟩
  | cons call rest ih =>
      obtain ⟨result, between, next, called, still, stepped, nextRouted⟩ :=
        call_routing settled routed call
      obtain ⟨results, after, left, ran, ended, finalRouted⟩ := ih still nextRouted
      refine ⟨result :: results, after, left, run_of_call called ran, ?_, finalRouted⟩
      simp only [Routing.run, List.foldlM_cons, stepped]
      exact ended

theorem Wraps.routing_exists {partitionSize startingEntries : Nat} {inner : Index τ}
    (wraps : Wraps partitionSize startingEntries inner index) :
    ∃ base invalidation, inner.partitions partitionSize startingEntries invalidation = .ok base ∧
      index.routing? = some (.start base.bare inner.entries) := by
  obtain ⟨variant, cold, invalidation, _, created, _, rfl⟩ := wraps.exists
  have requests (request : Request) :
      ((OperationLedger.empty : OperationLedger τ).tally (.request request)).operations = 0 := by
    cases request <;> rfl
  refine ⟨cold.base, invalidation, created, ?_⟩
  simp only [routing?, wrap, Merging.routing, Merging.create, Routing.start, requests]
  rfl

/-- Around indexes of one record size and one number of entries, two indexes of any variants on any
devices route the same requests alike, whatever accesses to their disks come in between. -/
theorem same_routing {leftInner rightInner left right : Index τ}
    {partitionSize startingEntries : Nat} (leftReachable : leftInner.Reachable)
    (rightReachable : rightInner.Reachable)
    (recordSize : leftInner.recordSize = rightInner.recordSize)
    (entries : leftInner.entries = rightInner.entries)
    (leftWraps : Wraps partitionSize startingEntries leftInner left)
    (rightWraps : Wraps partitionSize startingEntries rightInner right)
    {leftCalls rightCalls : List (Call τ)}
    (requests : leftCalls.filter Call.isRequest = rightCalls.filter Call.isRequest) :
    ∃ leftResults leftAfter rightResults rightAfter routing,
      left.run leftCalls = .ok (leftResults, leftAfter) ∧
      right.run rightCalls = .ok (rightResults, rightAfter) ∧
      leftAfter.routing? = some routing ∧ rightAfter.routing? = some routing := by
  obtain ⟨leftBase, _, leftCreated, leftRouted⟩ := leftWraps.routing_exists
  obtain ⟨rightBase, _, rightCreated, rightRouted⟩ := rightWraps.routing_exists
  have sameBase : leftBase.bare = rightBase.bare := by
    rw [partitions, recordSize] at leftCreated
    exact PartitionStore.create_bare leftCreated rightCreated
  rw [sameBase, entries] at leftRouted
  obtain ⟨leftResults, leftAfter, routing, leftRan, leftEnded, leftFinal⟩ :=
    run_routing (Reachable.wrap leftReachable leftWraps).settled leftRouted leftCalls
  obtain ⟨rightResults, rightAfter, other, rightRan, rightEnded, rightFinal⟩ :=
    run_routing (Reachable.wrap rightReachable rightWraps).settled rightRouted rightCalls
  rw [← Routing.run_requests, requests, Routing.run_requests, rightEnded] at leftEnded
  cases leftEnded
  exact ⟨leftResults, leftAfter, rightResults, rightAfter, routing, leftRan, rightRan, leftFinal,
    rightFinal⟩

theorem same_routing_of_memory_and_drive :
    ∃ leftTree rightTree left right : Index Rat,
      Index.tree (.create (.pcm ⟨⟨"PCM", 64, 1, 2⟩, 0⟩)) 1 1 8 = .ok leftTree ∧
      Index.tree (.create (.ssd ⟨⟨"SSD", 4, 8, 1, 2, 1, 1, 3, 1⟩, 0, 0⟩)) 1 1 16 = .ok rightTree ∧
      leftTree.inPlace 4 5 = .ok left ∧ rightTree.deferred 4 5 ⟨1, 1, 1⟩ = .ok right ∧
      ∃ leftResults leftAfter rightResults rightAfter routing,
        left.run [.insert 2, .access .read 7, .find .range 4 1] = .ok (leftResults, leftAfter) ∧
        right.run [.insert 2, .find .range 4 1, .resetLedgers] = .ok (rightResults, rightAfter) ∧
        leftAfter.routing? = some routing ∧ rightAfter.routing? = some routing := by
  obtain ⟨leftTree, leftPlanted, leftSize, leftEmpty⟩ : ∃ tree : Index Rat,
      Index.tree (.create (.pcm ⟨⟨"PCM", 64, 1, 2⟩, 0⟩)) 1 1 8 = .ok tree ∧
        tree.recordSize = 2 ∧ tree.entries = 0 := ⟨_, rfl, rfl, rfl⟩
  obtain ⟨rightTree, rightPlanted, rightSize, rightEmpty⟩ : ∃ tree : Index Rat,
      Index.tree (.create (.ssd ⟨⟨"SSD", 4, 8, 1, 2, 1, 1, 3, 1⟩, 0, 0⟩)) 1 1 16 = .ok tree ∧
        tree.recordSize = 2 ∧ tree.entries = 0 := ⟨_, rfl, rfl, rfl⟩
  obtain ⟨left, leftBuilt⟩ : ∃ left, leftTree.inPlace 4 5 = .ok left := by
    cases leftPlanted
    exact ⟨_, rfl⟩
  obtain ⟨right, rightBuilt⟩ : ∃ right, rightTree.deferred 4 5 ⟨1, 1, 1⟩ = .ok right := by
    cases rightPlanted
    exact ⟨_, rfl⟩
  exact ⟨leftTree, rightTree, left, right, leftPlanted, rightPlanted, leftBuilt, rightBuilt,
    same_routing (.tree leftPlanted) (.tree rightPlanted) (leftSize.trans rightSize.symm)
      (leftEmpty.trans rightEmpty.symm) (.inPlace leftBuilt) (.deferred rightBuilt) rfl⟩

end Index

end MergeCost
