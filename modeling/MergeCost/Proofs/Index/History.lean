import MergeCost.Proofs.Index.Deeds
import MergeCost.Proofs.Index.Reachable

/-!
Runs call by call. Each call of a run is answered by the deeds that the level before it is asked
for; the history of a run lists its calls with the indexes that they were made on.
-/

namespace MergeCost

open Sim

variable {τ : Type} [Scalar τ]

/-- What a call asks of an index with so many entries. -/
def Call.demand? (available : Nat) : Call τ → Option Demand
  | insert entries => if entries = 0 then none else some ⟨.insert, entries⟩
  | find lookup entries repeats => Demand.find? lookup entries repeats available
  | findShare lookup share repeats =>
      match entriesOfShare available share with
      | .ok entries => Demand.find? lookup entries repeats available
      | .error _ => none
  | delete entries => Demand.delete? entries available
  | bulkload _ | access .. | resetLedgers => none

/-- A call ends, and what it has done is answered for by deeds; past the index it does nothing to
it. -/
theorem Merging.call_answers {σ : Type} [EntryStore τ σ] {Valid : σ → Prop} {merging : Merging τ σ}
    (conserves : EntryStore.Conserves Valid) (settled : merging.Settled Valid) (call : Call τ)
    (machine : Machine τ) :
    ∃ result after finish, outcome call.action ⟨merging, machine⟩ =
        .ok (result, ⟨after, finish⟩) ∧
      after.Settled Valid ∧
      (call.isRequest →
        Answers Valid ⟨merging, machine⟩ (call.demand? merging.entries) ⟨after, finish⟩) ∧
      (¬call.isRequest → after = merging) := by
  have sides : (⟨merging, machine⟩ : World τ (Merging τ σ)).store.Sides Valid := settled.toSides
  cases call with
  | insert added =>
      obtain ⟨time, after, finish, ran, still, _⟩ := insert_exists conserves settled added machine
      exact ⟨.ok time, after, finish, ran, still,
        fun _ => insert_answers conserves sides added time _ ran, nofun⟩
  | bulkload added => exact ⟨_, merging, machine, rfl, settled, fun _ => rfl, nofun⟩
  | find lookup wanted repeats =>
      obtain ⟨time, after, finish, ran, still, _⟩ :=
        find_exists conserves settled lookup wanted repeats machine
      exact ⟨.ok time, after, finish, ran, still,
        fun _ => find_answers conserves sides lookup wanted repeats time _ ran, nofun⟩
  | findShare lookup share repeats =>
      have shared := EntryStore.outcome_findShare lookup share repeats ⟨merging, machine⟩
      have entries : merging.entries = EntryStore.entries merging := rfl
      cases wanted : entriesOfShare (EntryStore.entries merging) share with
      | error refusal =>
          simp only [wanted] at shared
          refine ⟨.error refusal, merging, machine, shared, settled, fun _ => ?_, nofun⟩
          simp only [Call.demand?, entries, wanted]
          rfl
      | ok count =>
          obtain ⟨time, after, finish, ran, still, _⟩ :=
            find_exists conserves settled lookup count repeats machine
          simp only [wanted] at shared
          refine ⟨.ok time, after, finish, shared.trans ran, still, fun _ => ?_, nofun⟩
          simp only [Call.demand?, entries, wanted]
          exact find_answers conserves sides lookup count repeats time _ ran
  | delete removed =>
      obtain ⟨time, after, finish, ran, still, _⟩ := delete_exists conserves settled removed machine
      exact ⟨.ok time, after, finish, ran, still,
        fun _ => delete_answers conserves sides removed time _ ran, nofun⟩
  | access kind bytes =>
      exact ⟨_, merging, _, outcome_access kind bytes ⟨merging, machine⟩, settled, nofun,
        fun _ => rfl⟩
  | resetLedgers => exact ⟨_, merging, _, rfl, settled, nofun, fun _ => rfl⟩

namespace Index

/-- The outermost level, if it has a cold side. -/
def level? : Index τ → Option (Level τ)
  | ⟨0, _, _⟩ => none
  | ⟨_ + 1, merging, _⟩ => some (Merging.level (merging : Merging τ (Stack τ _)))

/-- The calls of a run, each with the index that it is made on. -/
def history (index : Index τ) : List (Call τ) → List (Index τ × Call τ)
  | [] => []
  | call :: rest =>
      (index, call) :: match index.call call with
        | .ok (_, after) => after.history rest
        | .error _ => []

/-- A run without a fault, as its history. -/
inductive Runs : Index τ → List (Index τ × Call τ) → Index τ → Prop
  | nil {index : Index τ} : Runs index [] index
  | cons {index between after : Index τ} {call : Call τ} {result : Except (Error τ) τ}
      {history : List (Index τ × Call τ)} (settled : index.Settled)
      (called : index.call call = .ok (result, between)) (rest : Runs between history after) :
      Runs index ((index, call) :: history) after

variable {index : Index τ}

theorem runs_exists (settled : index.Settled) (calls : List (Call τ)) :
    ∃ results after, index.run calls = .ok (results, after) ∧ after.Settled ∧
      Runs index (index.history calls) after ∧ (index.history calls).map Prod.snd = calls := by
  induction calls generalizing index with
  | nil => exact ⟨[], index, rfl, settled, .nil, rfl⟩
  | cons call rest ih =>
      obtain ⟨result, between, called, still, _⟩ := call_exists settled call
      obtain ⟨results, after, ran, left, runs, calls⟩ := ih still
      refine ⟨result :: results, after, run_of_call called ran, left, ?_, ?_⟩
      · simp only [history, called]
        exact .cons settled called runs
      · simp only [history, called, List.map_cons, calls]

end Index

end MergeCost
