import MergeCost.Proofs.Index.Composition
import MergeCost.Proofs.Index.Reachable
import MergeCost.Simulation.Blind

/-!
Ledgers of the disk are only written. No request looks at them, at whatever level of an index, so
clearing them in between leaves every result as it was, and everything else that a run leaves
behind.
-/

namespace MergeCost

open Sim

variable {τ : Type} [Scalar τ]

/-- Stores of which no request looks at the ledgers of the disk. -/
structure EntryStore.Blind (σ : Type) [EntryStore τ σ] : Prop where
  insert : ∀ entries : Nat, (EntryStore.insert entries : Sim τ σ τ).Blind
  bulkload : ∀ entries : Nat, (EntryStore.bulkload entries : Sim τ σ τ).Blind
  find : ∀ (lookup : Lookup) (entries repeats : Nat),
    (EntryStore.find lookup entries repeats : Sim τ σ τ).Blind
  delete : ∀ entries : Nat, (EntryStore.delete entries : Sim τ σ τ).Blind

theorem EntryStore.Composed.blind {σ : Type} [EntryStore τ σ] {tells : Event τ → Prop}
    (composed : EntryStore.Composed tells σ) : EntryStore.Blind σ where
  insert entries := (composed.insert entries).blind
  bulkload entries := (composed.bulkload entries).blind
  find lookup entries repeats := (composed.find lookup entries repeats).blind
  delete entries := (composed.delete entries).blind

theorem Stack.blind (depth : Nat) : EntryStore.Blind (Stack τ depth) :=
  (Stack.composed depth).blind

/-! Calls -/

namespace Call

variable {σ : Type} [EntryStore τ σ]

theorem action_blind (blind : EntryStore.Blind σ) (call : Call τ) :
    (call.action : Sim τ σ τ).Blind := by
  cases call with
  | insert entries => exact blind.insert entries
  | bulkload entries => exact blind.bulkload entries
  | find lookup entries repeats => exact blind.find lookup entries repeats
  | findShare lookup share repeats =>
      refine Blind.store.bind fun store => ?_
      cases entriesOfShare (EntryStore.entries store) share with
      | ok count => exact blind.find lookup count repeats
      | error refusal => exact .throw refusal
  | delete entries => exact blind.delete entries
  | access kind bytes => exact .access kind bytes
  | resetLedgers =>
      intro store left right alike
      exact .ended (.ok Scalar.zero) store ⟨alike.device_eq, alike.log_eq⟩

/-- The results of calls, without those of resets. -/
def answers (calls : List (Call τ)) (results : List (Except (Error τ) τ)) :
    List (Except (Error τ) τ) :=
  ((calls.zip results).filter fun answered => !answered.1.isReset).map Prod.snd

end Call

namespace Index

/-- Indexes that differ at most in the ledgers of their disks. -/
inductive Alike : Index τ → Index τ → Prop
  | mk {depth : Nat} {stack : Stack τ depth} {left right : Machine τ} (alike : left.Alike right) :
      Alike ⟨depth, stack, left⟩ ⟨depth, stack, right⟩

/-- An index with other ledgers on its disk, and the same in everything else. -/
def withLedgers (index : Index τ) (total last : AccessLedger τ) : Index τ :=
  { index with machine := { index.machine with disk := { index.machine.disk with total, last } } }

variable {index plain after : Index τ} {result : Except (Error τ) τ}

omit [Scalar τ] in
theorem Alike.exists_ledgers (alike : index.Alike plain) :
    ∃ total last, index = plain.withLedgers total last := by
  cases alike with
  | @mk depth stack left right alike =>
      obtain ⟨⟨device, total, last⟩, log⟩ := left
      obtain ⟨rfl, rfl⟩ := alike
      exact ⟨total, last, rfl⟩

theorem Alike.call {call : Call τ} (alike : index.Alike plain) (settled : index.Settled)
    (called : index.call call = .ok (result, after)) :
    ∃ other, plain.call call = .ok (result, other) ∧ after.Alike other := by
  cases alike with
  | @mk depth stack left right alike =>
      obtain ⟨_, left', finish, ran, _⟩ := Stack.call_exists settled call left
      rw [call_of_outcome ran] at called
      cases called
      have same := Call.action_blind (Stack.blind depth) call stack alike
      rw [ran] at same
      obtain ⟨machine, ended, still⟩ := same.of_ok
      exact ⟨_, call_of_outcome ended, .mk still⟩

theorem Alike.reset (alike : index.Alike plain)
    (called : index.call .resetLedgers = .ok (result, after)) : after.Alike plain := by
  cases alike with
  | mk alike =>
      cases called
      exact .mk ⟨alike.device_eq, alike.log_eq⟩

theorem Alike.run (alike : index.Alike plain) (settled : index.Settled) (calls : List (Call τ)) :
    ∃ results after plainAfter, index.run calls = .ok (results, after) ∧
      plain.run (calls.filter fun call => !call.isReset) =
        .ok (Call.answers calls results, plainAfter) ∧
      after.Alike plainAfter := by
  induction calls generalizing index plain with
  | nil => exact ⟨[], index, plain, rfl, rfl, alike⟩
  | cons call rest ih =>
      obtain ⟨result, between, called, still, _⟩ := call_exists settled call
      by_cases reset : call.isReset
      · have same : between.Alike plain := by
          cases call <;> first | exact alike.reset called | cases reset
        obtain ⟨results, after, plainAfter, ran, plainRan, alike⟩ := ih same still
        refine ⟨result :: results, after, plainAfter, run_of_call called ran, ?_, alike⟩
        simpa [Call.answers, reset] using plainRan
      · obtain ⟨other, plainCalled, same⟩ := alike.call settled called
        obtain ⟨results, after, plainAfter, ran, plainRan, alike⟩ := ih same still
        refine ⟨result :: results, after, plainAfter, run_of_call called ran, ?_, alike⟩
        simp only [List.filter_cons, reset, Bool.not_false, if_true]
        rw [run_of_call plainCalled plainRan]
        simp [Call.answers, reset]

/-- Ledgers never influence a run. Whatever calls are made on an index, clearing the ledgers of its
disk in between changes no result, and of what is left behind it changes nothing but the ledgers:
not the store at any level, nor the device, nor the log. -/
theorem run_resets (reachable : index.Reachable) (calls : List (Call τ)) :
    ∃ results after plainAfter total last,
      index.run calls = .ok (results, after) ∧
      index.run (calls.filter fun call => !call.isReset) =
        .ok (Call.answers calls results, plainAfter) ∧
      after = plainAfter.withLedgers total last := by
  have self : index.Alike index := .mk (.refl index.machine)
  obtain ⟨results, after, plainAfter, ran, plainRan, alike⟩ := self.run reachable.settled calls
  obtain ⟨total, last, same⟩ := alike.exists_ledgers
  exact ⟨results, after, plainAfter, total, last, ran, plainRan, same⟩

theorem run_resets_of_nested_merging :
    ∃ tree inner index : Index Rat,
      Index.tree (.create (.ssd ⟨⟨"SSD", 4, 8, 1, 2, 1, 1, 3, 1⟩, 0, 0⟩)) 1 1 16 = .ok tree ∧
      tree.deferred 4 5 ⟨1, 1, 1⟩ = .ok inner ∧ inner.eager 4 7 = .ok index ∧
      ∃ calls results after plainAfter total last,
        calls = [.find .range 4 1, .resetLedgers, .delete 3, .access .read 7, .resetLedgers] ∧
        index.run calls = .ok (results, after) ∧
        index.run [.find .range 4 1, .delete 3, .access .read 7] =
          .ok (Call.answers calls results, plainAfter) ∧
        after = plainAfter.withLedgers total last := by
  obtain ⟨tree, planted⟩ : ∃ tree : Index Rat,
      Index.tree (.create (.ssd ⟨⟨"SSD", 4, 8, 1, 2, 1, 1, 3, 1⟩, 0, 0⟩)) 1 1 16 = .ok tree :=
    ⟨_, rfl⟩
  obtain ⟨inner, first⟩ : ∃ inner, tree.deferred 4 5 ⟨1, 1, 1⟩ = .ok inner := by
    cases planted
    exact ⟨_, rfl⟩
  obtain ⟨index, second⟩ : ∃ index, inner.eager 4 7 = .ok index := by
    cases planted
    cases first
    exact ⟨_, rfl⟩
  have reachable : index.Reachable :=
    .wrap (.wrap (.tree planted) (.deferred first)) (.eager second)
  obtain ⟨results, after, plainAfter, total, last, ran, plainRan, same⟩ :=
    run_resets reachable
      [.find .range 4 1, .resetLedgers, .delete 3, .access .read 7, .resetLedgers]
  exact ⟨tree, inner, index, planted, first, second, _, results, after, plainAfter, total, last,
    rfl, ran, plainRan, same⟩

end Index

end MergeCost
