import Mathlib
import MergeCost.Proofs.Index.Composition
import MergeCost.Proofs.Index.Reachable
import MergeCost.Simulation.Traced

/-!
The log against the ledgers of the disk. Every access at whatever level of an index is reported
where it is made, so the ledgers can be had from the log alone: the one of all accesses by entering
the reports one after the other, the one of the last access from the last report.
-/

namespace MergeCost

open Sim

variable {τ : Type} [Scalar τ]

/-- Both ledgers of the disk are what the accesses in the log come to. -/
structure Machine.Replays (machine : Machine τ) : Prop where
  total_eq : machine.disk.total = .replay machine.accesses
  last_eq : machine.disk.last = .replay machine.accesses.getLast?.toList

namespace Machine

variable {before after : Machine τ} {transfers : List Transfer}

theorem Reports.total_eq (reports : before.Reports transfers after) :
    after.disk.total = (before.disk.reports transfers).foldl .enter before.disk.total := by
  rw [reports.disk_eq, Disk.total_transferAll]

theorem Reports.last_eq (reports : before.Reports transfers after) :
    after.disk.last =
      (before.disk.reports transfers).getLast?.elim before.disk.last AccessLedger.empty.enter := by
  rw [reports.disk_eq, Disk.last_transferAll]

theorem Replays.create (device : Device τ) : (Machine.create (.create device)).Replays := ⟨rfl, rfl⟩

theorem Replays.emit (replays : before.Replays) {event : Event τ} (merging : event.IsMerging) :
    (before.emit event).Replays := by
  have accesses := before.accesses_emit merging
  exact ⟨accesses ▸ replays.total_eq, accesses ▸ replays.last_eq⟩

theorem Reports.replays (reports : before.Reports transfers after) (replays : before.Replays) :
    after.Replays where
  total_eq := by
    rw [reports.total_eq, replays.total_eq, reports.accesses_eq, AccessLedger.replay,
      AccessLedger.replay, List.foldl_append]
  last_eq := by
    rw [reports.last_eq, replays.last_eq, reports.accesses_eq, List.getLast?_append]
    cases (before.disk.reports transfers).getLast? <;> rfl

end Machine

namespace Index

/-- The indexes that can be built on a new disk and called for, without clearing its ledgers. -/
inductive Uncleared : Index τ → Prop
  | tree {device : Device τ} {keySize dataSize nodeSize : Nat} {index : Index τ}
      (built : Index.tree (.create device) keySize dataSize nodeSize = .ok index) : Uncleared index
  | wrap {partitionSize startingEntries : Nat} {inner index : Index τ} (before : Uncleared inner)
      (wraps : Wraps partitionSize startingEntries inner index) : Uncleared index
  | call {index after : Index τ} {call : Call τ} {result : Except (Error τ) τ}
      (before : Uncleared index) (kept : ¬call.isReset)
      (called : index.call call = .ok (result, after)) : Uncleared after

/-- How calls go that are made one after the other: the transfers that each of them makes, and the
index that they leave. -/
inductive Transfers : Index τ → List (Call τ) → List Transfer → Index τ → Prop
  | nil (index : Index τ) : Transfers index [] [] index
  | cons {depth : Nat} {stack between : Stack τ depth} {machine middle : Machine τ} {call : Call τ}
      {calls : List (Call τ)} {result : Except (Error τ) τ} {earlier later : List Transfer}
      {after : Index τ}
      (first : call.action.Transfers ⟨stack, machine⟩ earlier result ⟨between, middle⟩)
      (rest : Transfers ⟨depth, between, middle⟩ calls later after) :
      Transfers ⟨depth, stack, machine⟩ (call :: calls) (earlier ++ later) after

variable {index after : Index τ} {call : Call τ} {calls : List (Call τ)}
  {result : Except (Error τ) τ} {transfers : List Transfer}

theorem Transfers.reports (went : index.Transfers calls transfers after) :
    index.machine.Reports transfers after.machine := by
  induction went with
  | nil index => exact .none rfl rfl
  | cons first _ rest => exact first.reports.trans rest

theorem call_transfers {depth : Nat} {stack : Stack τ depth} {machine : Machine τ}
    (kept : ¬call.isReset)
    (called : Index.call ⟨depth, stack, machine⟩ call = .ok (result, after)) :
    ∃ left finish transfers, after = ⟨depth, left, finish⟩ ∧
      call.action.Transfers ⟨stack, machine⟩ transfers result ⟨left, finish⟩ := by
  obtain ⟨⟨result, left, finish⟩, ran, rest⟩ := Except.exists_of_bind called
  cases rest
  obtain ⟨transfers, went⟩ :=
    (Call.action_composed (Stack.composed depth) kept).exists_transfers ran
  exact ⟨left, finish, transfers, rfl, went⟩

theorem Uncleared.replays (uncleared : index.Uncleared) : index.machine.Replays := by
  induction uncleared with
  | tree built =>
      obtain ⟨tree, _, rest⟩ := Except.exists_of_bind built
      cases rest
      exact .create _
  | wrap _ wraps ih =>
      obtain ⟨variant, cold, _, _, _, _, rfl⟩ := wraps.exists
      exact ih.emit rfl
  | call _ kept called ih =>
      obtain ⟨left, finish, transfers, rfl, went⟩ := call_transfers kept called
      exact went.reports.replays ih

theorem run_transfers (settled : index.Settled) (kept : ∀ call ∈ calls, ¬call.isReset) :
    ∃ results after transfers, index.run calls = .ok (results, after) ∧
      index.Transfers calls transfers after := by
  induction calls generalizing index with
  | nil => exact ⟨[], index, [], rfl, .nil index⟩
  | cons call rest ih =>
      obtain ⟨kept, restKept⟩ := List.forall_mem_cons.mp kept
      obtain ⟨result, between, called, still, _⟩ := call_exists settled call
      obtain ⟨left, finish, earlier, rfl, first⟩ := call_transfers kept called
      obtain ⟨results, after, later, ran, more⟩ := ih still restKept
      exact ⟨result :: results, after, earlier ++ later, run_of_call called ran, .cons first more⟩

/-- The log replays the ledgers. Whatever calls are made on an index, as long as none clears the
ledgers of its disk: the log gets one report of each transfer that the calls make and that moves
something, in their order. Entering these reports into the ledgers that were there before gives the
ledgers that are there afterwards; and if the ledgers have never been cleared, entering all accesses
in the log into an empty ledger gives the one, and entering the last of them alone the other. -/
theorem run_traced (reachable : index.Reachable) (kept : ∀ call ∈ calls, ¬call.isReset) :
    ∃ results after transfers, index.run calls = .ok (results, after) ∧
      index.Transfers calls transfers after ∧
      after.machine.accesses =
        index.machine.accesses ++ index.machine.disk.reports transfers ∧
      after.machine.disk.total =
        (index.machine.disk.reports transfers).foldl .enter index.machine.disk.total ∧
      after.machine.disk.last = (index.machine.disk.reports transfers).getLast?.elim
        index.machine.disk.last AccessLedger.empty.enter ∧
      (index.Uncleared →
        after.machine.disk.total = .replay after.machine.accesses ∧
        after.machine.disk.last = .replay after.machine.accesses.getLast?.toList) := by
  obtain ⟨results, after, transfers, ran, went⟩ := run_transfers reachable.settled kept
  have reports := went.reports
  refine ⟨results, after, transfers, ran, went, reports.accesses_eq, reports.total_eq,
    reports.last_eq, fun uncleared => ?_⟩
  have replays := reports.replays uncleared.replays
  exact ⟨replays.total_eq, replays.last_eq⟩

theorem run_traced_of_merging :
    ∃ tree index : Index Rat,
      Index.tree (.create (.ssd ⟨⟨"SSD", 4, 8, 1, 2, 1, 1, 3, 1⟩, 0, 0⟩)) 1 1 16 = .ok tree ∧
      tree.deferred 4 5 ⟨1, 1, 1⟩ = .ok index ∧
      ∃ results after,
        index.run [.find .range 4 1, .access .read 0, .access .write 7] = .ok (results, after) ∧
        after.machine.accesses.length = 10 ∧
        after.machine.disk.total = .replay after.machine.accesses ∧
        after.machine.disk.last = .replay after.machine.accesses.getLast?.toList := by
  obtain ⟨tree, planted⟩ : ∃ tree : Index Rat,
      Index.tree (.create (.ssd ⟨⟨"SSD", 4, 8, 1, 2, 1, 1, 3, 1⟩, 0, 0⟩)) 1 1 16 = .ok tree :=
    ⟨_, rfl⟩
  let calls : List (Call Rat) := [.find .range 4 1, .access .read 0, .access .write 7]
  obtain ⟨index, built, counted⟩ : ∃ index, tree.deferred 4 5 ⟨1, 1, 1⟩ = .ok index ∧
      (index.run calls).toOption.map (fun done => done.2.machine.accesses.length) = some 10 := by
    cases planted
    exact ⟨_, rfl, by cbv⟩
  have kept : ∀ call ∈ calls, ¬call.isReset := by decide
  obtain ⟨results, after, _, ran, _, _, _, _, replays⟩ :=
    run_traced (.wrap (.tree planted) (.deferred built)) kept
  rw [ran] at counted
  exact ⟨tree, index, planted, built, results, after, ran, Option.some.inj counted,
    replays (.wrap (.tree planted) (.deferred built))⟩

end Index

end MergeCost
