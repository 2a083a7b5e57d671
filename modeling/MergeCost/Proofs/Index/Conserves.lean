import MergeCost.Index.BTree
import MergeCost.Simulation.Outcome
import Mathlib.Data.Nat.SuccPred

/-!
Stores that keep count. `EntryStore.Conserves` is what an index has to promise so that it can be
wrapped: its requests end well on any machine, and they change the number of entries by what they
were asked for.
-/

namespace MergeCost

open Sim

variable {τ σ : Type}

/-- The requests of valid stores end well in valid stores with as many entries as there should
be. -/
structure EntryStore.Conserves [EntryStore τ σ] (Valid : σ → Prop) : Prop where
  insert : ∀ {store : σ}, Valid store → ∀ (entries : Nat) (machine : Machine τ),
    ∃ time after machine', outcome (EntryStore.insert entries) ⟨store, machine⟩ =
        .ok (.ok time, ⟨after, machine'⟩) ∧
      Valid after ∧ EntryStore.entries after = EntryStore.entries store + entries
  find : ∀ {store : σ}, Valid store →
    ∀ (lookup : Lookup) (entries repeats : Nat) (machine : Machine τ),
    ∃ time after machine', outcome (EntryStore.find lookup entries repeats) ⟨store, machine⟩ =
        .ok (.ok time, ⟨after, machine'⟩) ∧
      Valid after ∧ EntryStore.entries after = EntryStore.entries store
  delete : ∀ {store : σ}, Valid store → ∀ (entries : Nat) (machine : Machine τ),
    ∃ time after machine', outcome (EntryStore.delete entries) ⟨store, machine⟩ =
        .ok (.ok time, ⟨after, machine'⟩) ∧
      Valid after ∧ EntryStore.entries after = EntryStore.entries store - entries

/-- A run ends well on any machine and leaves the store as it was. -/
def Sim.Keeps {α : Type} (action : Sim τ σ α) (store : σ) : Prop :=
  ∀ machine, ∃ value after, outcome action ⟨store, machine⟩ = .ok (.ok value, ⟨store, after⟩)

theorem Sim.iterate_keeps {α : Type} {step : α → Sim τ σ α} {store : σ}
    (keeps : ∀ value, (step value).Keeps store) (count : Nat) (value : α) :
    (iterate step count value).Keeps store := by
  induction count generalizing value with
  | zero => exact fun machine => ⟨value, machine, rfl⟩
  | succ count ih =>
      intro machine
      obtain ⟨next, between, stepped⟩ := keeps value machine
      obtain ⟨result, after, ended⟩ := ih next between
      exact ⟨result, after, by rw [iterate, outcome_bind, stepped, after_ok, ended]⟩

variable [Scalar τ]

theorem EntryStore.outcome_findShare [EntryStore τ σ] (lookup : Lookup) (share : τ) (repeats : Nat)
    (world : World τ σ) :
    outcome (findShare lookup share repeats) world =
      match entriesOfShare (entries world.store) share with
      | .ok count => outcome (find lookup count repeats) world
      | .error refusal => .ok (.error refusal, world) := by
  simp only [findShare, outcome_bind, outcome_store, after_ok]
  cases entriesOfShare (entries world.store) share <;> rfl

theorem Sim.addTimes_keeps {action : Sim τ σ τ} {store : σ} (keeps : action.Keeps store)
    (count : Nat) (total : τ) : (addTimes action count total).Keeps store := by
  apply iterate_keeps
  intro total machine
  obtain ⟨time, after, ran⟩ := keeps machine
  exact ⟨total + time, after, by simp only [outcome_bind, ran, after_ok, outcome_pure]⟩

namespace BTree

theorem descend_keeps (levels : Nat) (tree : BTree τ) : (descend levels).Keeps tree := by
  intro machine
  have read : (access .read tree.nodeSize : Sim τ (BTree τ) τ).Keeps tree :=
    fun machine => ⟨_, _, outcome_access .read tree.nodeSize ⟨tree, machine⟩⟩
  obtain ⟨time, after, ran⟩ := addTimes_keeps read levels (-Scalar.zero) machine
  refine ⟨time, after, ?_⟩
  simp only [descend, outcome_bind, outcome_store, after_ok, ran]

theorem updateLeaf_keeps (tree : BTree τ) : updateLeaf.Keeps tree := by
  intro machine
  obtain ⟨time, after, ran⟩ := descend_keeps tree.height tree machine
  simp only [updateLeaf, outcome_bind, outcome_store, after_ok, ran, outcome_access, outcome_pure]
  exact ⟨_, _, rfl⟩

/-- Updates of leaves, each of which changes the number of entries in the same way. -/
theorem updateLeaves_exists (change : Nat → Nat) (count : Nat) (tree : BTree τ)
    (machine : Machine τ) (total : τ) :
    ∃ time after machine', outcome (addTimes (do
        let time ← updateLeaf
        setEntries change
        return time) count total) ⟨tree, machine⟩ = .ok (.ok time, ⟨after, machine'⟩) ∧
      after.entries = change^[count] tree.entries := by
  induction count generalizing tree machine total with
  | zero => exact ⟨total, tree, machine, rfl, rfl⟩
  | succ count ih =>
      obtain ⟨spent, between, updated⟩ := updateLeaf_keeps tree machine
      let changed : BTree τ := { tree with entries := change tree.entries }
      obtain ⟨time, after, finish, ended, entries⟩ := ih changed between (total + spent)
      refine ⟨time, after, finish, ?_, entries⟩
      simp only [addTimes, iterate, outcome_bind, updated, after_ok, setEntries, outcome_update,
        outcome_pure] at ended ⊢
      exact ended

theorem insert_exists (tree : BTree τ) (entries : Nat) (machine : Machine τ) :
    ∃ time after machine', outcome (insert entries) ⟨tree, machine⟩ =
        .ok (.ok time, ⟨after, machine'⟩) ∧ after.entries = tree.entries + entries := by
  by_cases nothing : entries = 0
  · subst nothing
    exact ⟨_, _, _, rfl, rfl⟩
  · obtain ⟨time, after, between, ran, left⟩ :=
      updateLeaves_exists (· + 1) entries tree machine Scalar.zero
    have ended : outcome (insert entries) ⟨tree, machine⟩ =
        .ok (.ok time, ⟨{ after with ledger := after.ledger.record (.request .insert) time 1 },
          between⟩) := by
      simp only [insert, if_neg nothing, outcome_bind, ran, after_ok, record, outcome_update,
        outcome_pure]
    exact ⟨_, _, _, ended, left.trans (Nat.succ_iterate ..)⟩

theorem delete_exists (tree : BTree τ) (entries : Nat) (machine : Machine τ) :
    ∃ time after machine', outcome (delete entries) ⟨tree, machine⟩ =
        .ok (.ok time, ⟨after, machine'⟩) ∧ after.entries = tree.entries - entries := by
  by_cases nothing : min entries tree.entries = 0
  · refine ⟨Scalar.zero, tree, machine, ?_, by omega⟩
    simp only [delete, outcome_bind, outcome_store, after_ok, if_pos nothing, outcome_pure]
  · obtain ⟨time, after, between, ran, left⟩ :=
      updateLeaves_exists (· - 1) (min entries tree.entries) tree machine Scalar.zero
    have ended : outcome (delete entries) ⟨tree, machine⟩ =
        .ok (.ok time, ⟨{ after with ledger := after.ledger.record (.request .delete) time 1 },
          between⟩) := by
      simp only [delete, outcome_bind, outcome_store, after_ok, if_neg nothing, ran, record,
        outcome_update, outcome_pure]
    have fewer : after.entries = tree.entries - min entries tree.entries :=
      left.trans (Nat.pred_iterate ..)
    exact ⟨_, _, _, ended, fewer.trans (by omega)⟩

theorem findPoint_exists (tree : BTree τ) (entries repeats : Nat) (machine : Machine τ) :
    ∃ time after machine', outcome (findPoint entries repeats) ⟨tree, machine⟩ =
        .ok (.ok time, ⟨after, machine'⟩) ∧ after.entries = tree.entries := by
  by_cases nothing : entries = 0 ∨ repeats = 0
  · refine ⟨Scalar.zero, tree, machine, ?_, rfl⟩
    simp only [findPoint, if_pos nothing, outcome_pure]
  · simp only [findPoint, if_neg nothing, outcome_bind, outcome_store, after_ok]
    by_cases flat : tree.height = 0
    · simp only [if_pos flat, outcome_bind, outcome_pure, after_ok, record, outcome_update]
      exact ⟨_, _, _, rfl, rfl⟩
    · obtain ⟨time, after, ran⟩ := addTimes_keeps (descend_keeps tree.height tree)
        (repeats * entries) Scalar.zero machine
      simp only [if_neg flat, outcome_bind, ran, after_ok, record, outcome_update, outcome_pure]
      exact ⟨_, _, _, rfl, rfl⟩

theorem findRange_exists (tree : BTree τ) (entries repeats : Nat) (machine : Machine τ) :
    ∃ time after machine', outcome (findRange entries repeats) ⟨tree, machine⟩ =
        .ok (.ok time, ⟨after, machine'⟩) ∧ after.entries = tree.entries := by
  by_cases nothing : min entries tree.entries = 0 ∨ repeats = 0
  · refine ⟨Scalar.zero, tree, machine, ?_, rfl⟩
    simp only [findRange, outcome_bind, outcome_store, after_ok, if_pos nothing, outcome_pure]
  · let bytes := unitsFor (min entries tree.entries) tree.fanout * tree.nodeSize
    let visit (total : τ) : Sim τ (BTree τ) τ := do
      let inner ← descend (tree.height - 1)
      let leaves ← access .read bytes
      return total + inner + leaves
    have visits (total : τ) : (visit total).Keeps tree := by
      intro machine
      obtain ⟨inner, between, descended⟩ := descend_keeps (tree.height - 1) tree machine
      simp only [visit, outcome_bind, descended, after_ok, outcome_access, outcome_pure]
      exact ⟨_, _, rfl⟩
    obtain ⟨time, after, ran⟩ := iterate_keeps visits repeats Scalar.zero machine
    simp only [visit, bytes] at ran
    simp only [findRange, outcome_bind, outcome_store, after_ok, if_neg nothing]
    simp only [outcome_bind, ran, after_ok, record, outcome_update, outcome_pure]
    exact ⟨_, _, _, rfl, rfl⟩

theorem bulkload_exists (tree : BTree τ) (entries : Nat) (machine : Machine τ) :
    ∃ time after machine', outcome (bulkload entries) ⟨tree, machine⟩ =
        .ok (.ok time, ⟨after, machine'⟩) ∧ after.entries = tree.entries + entries := by
  by_cases nothing : entries = 0
  · subst nothing
    exact ⟨_, _, _, rfl, rfl⟩
  · simp only [bulkload, if_neg nothing, outcome_bind, outcome_store, after_ok, outcome_access,
      setEntries, outcome_update, record, outcome_pure]
    exact ⟨_, _, _, rfl, rfl⟩

theorem conserves : EntryStore.Conserves (fun _ : BTree τ => True) where
  insert := by
    intro tree _ entries machine
    obtain ⟨time, after, between, ran, left⟩ := insert_exists tree entries machine
    exact ⟨time, after, between, ran, trivial, left⟩
  find := by
    intro tree _ lookup entries repeats machine
    cases lookup with
    | point =>
        obtain ⟨time, after, between, ran, left⟩ := findPoint_exists tree entries repeats machine
        exact ⟨time, after, between, ran, trivial, left⟩
    | range =>
        obtain ⟨time, after, between, ran, left⟩ := findRange_exists tree entries repeats machine
        exact ⟨time, after, between, ran, trivial, left⟩
  delete := by
    intro tree _ entries machine
    obtain ⟨time, after, between, ran, left⟩ := delete_exists tree entries machine
    exact ⟨time, after, between, ran, trivial, left⟩

end BTree

end MergeCost
