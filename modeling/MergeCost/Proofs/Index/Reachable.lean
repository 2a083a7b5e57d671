import MergeCost.Index.Call
import MergeCost.Proofs.Cold.Grouping
import MergeCost.Proofs.Index.Merging
import Mathlib.Data.List.Forall2

/-!
The indexes that construction and calls lead to, and how many entries they have. No run of calls on
such an index breaks off at any level, and at each level both sides make up the whole.
-/

namespace MergeCost

open Sim

variable {τ : Type} [Scalar τ]

def Stack.Settled : (depth : Nat) → Stack τ depth → Prop
  | 0, _ => True
  | depth + 1, stack => Merging.Settled (Stack.Settled depth) (σ := Stack τ depth) stack

theorem Stack.conserves (depth : Nat) :
    EntryStore.Conserves (Stack.Settled depth : Stack τ depth → Prop) := by
  induction depth with
  | zero => exact BTree.conserves
  | succ depth ih => exact Merging.conserves ih

/-- The number of entries after a call on an index that does or does not take a bulkload. -/
def Call.entriesAfter (canBulkload : Bool) (entries : Nat) : Call τ → Nat
  | insert added => entries + added
  | bulkload added => if canBulkload then entries + added else entries
  | delete removed => entries - min removed entries
  | find .. | findShare .. | access .. | resetLedgers => entries

def Call.isPlain : Call τ → Bool
  | bulkload _ | findShare .. => false
  | _ => true

theorem Stack.bulkload_exists {depth : Nat} {stack : Stack τ depth} (settled : stack.Settled depth)
    (added : Nat) (machine : Machine τ) :
    ∃ result after machine', outcome (EntryStore.bulkload added) ⟨stack, machine⟩ =
        .ok (result, ⟨after, machine'⟩) ∧
      after.Settled depth ∧
      EntryStore.entries after = if EntryStore.canBulkload stack
        then EntryStore.entries stack + added else EntryStore.entries stack := by
  cases depth with
  | zero =>
      obtain ⟨time, after, finish, ran, more⟩ := BTree.bulkload_exists stack added machine
      exact ⟨.ok time, after, finish, ran, trivial, more⟩
  | succ depth =>
      let merging : Merging τ (Stack τ depth) := stack
      exact ⟨.error (.bulkloadUnsupported merging.variant.name), stack, machine, rfl, settled, rfl⟩

theorem Stack.canBulkload_eq {depth : Nat} (first second : Stack τ depth) :
    EntryStore.canBulkload first = EntryStore.canBulkload second := by
  cases depth <;> rfl

/-- Every call ends, in a time or in a refusal, and changes the number of entries as it should. -/
theorem Stack.call_exists {depth : Nat} {stack : Stack τ depth} (settled : stack.Settled depth)
    (call : Call τ) (machine : Machine τ) :
    ∃ result after machine', outcome call.action ⟨stack, machine⟩ =
        .ok (result, ⟨after, machine'⟩) ∧
      after.Settled depth ∧
      EntryStore.entries after =
        call.entriesAfter (EntryStore.canBulkload stack) (EntryStore.entries stack) ∧
      (call.isPlain → ∃ time, result = .ok time) := by
  have conserves := Stack.conserves (τ := τ) depth
  cases call with
  | insert added =>
      obtain ⟨time, after, finish, ran, still, more⟩ := conserves.insert settled added machine
      exact ⟨.ok time, after, finish, ran, still, more, fun _ => ⟨time, rfl⟩⟩
  | bulkload added =>
      obtain ⟨result, after, finish, ran, still, more⟩ :=
        Stack.bulkload_exists settled added machine
      exact ⟨result, after, finish, ran, still, more, fun plain => nomatch plain⟩
  | find lookup wanted repeats =>
      obtain ⟨time, after, finish, ran, still, same⟩ :=
        conserves.find settled lookup wanted repeats machine
      exact ⟨.ok time, after, finish, ran, still, same, fun _ => ⟨time, rfl⟩⟩
  | findShare lookup share repeats =>
      have shared := EntryStore.outcome_findShare lookup share repeats ⟨stack, machine⟩
      cases wanted : entriesOfShare (EntryStore.entries stack) share with
      | error refusal =>
          simp only [wanted] at shared
          exact ⟨.error refusal, stack, machine, shared, settled, rfl, fun plain => nomatch plain⟩
      | ok count =>
          obtain ⟨time, after, finish, ran, still, same⟩ :=
            conserves.find settled lookup count repeats machine
          simp only [wanted, ran] at shared
          exact ⟨.ok time, after, finish, shared, still, same, fun plain => nomatch plain⟩
  | delete removed =>
      obtain ⟨time, after, finish, ran, still, fewer⟩ :=
        conserves.delete settled removed machine
      refine ⟨.ok time, after, finish, ran, still, ?_, fun _ => ⟨time, rfl⟩⟩
      simp only [Call.entriesAfter]
      omega
  | access kind bytes =>
      exact ⟨_, stack, _, outcome_access kind bytes ⟨stack, machine⟩, settled, rfl,
        fun _ => ⟨_, rfl⟩⟩
  | resetLedgers =>
      exact ⟨_, stack, _, rfl, settled, rfl, fun _ => ⟨_, rfl⟩⟩

/-! Levels -/

/-- Both sides make up the whole, and every request for no more than that can be split between
them, whatever has been carried over. -/
structure Merging.Balanced {σ : Type} [EntryStore τ σ] (merging : Merging τ σ) : Prop where
  entries_eq : EntryStore.entries merging =
    merging.cold.entries + EntryStore.entries merging.wrapped
  expected_eq : merging.expectedEntries = EntryStore.entries merging
  split_exists : ∀ (carry : τ), ∀ entries ≤ EntryStore.entries merging, ∃ parts,
    Split.of entries merging.cold.entries (EntryStore.entries merging.wrapped) carry = .ok parts ∧
      parts.cold + parts.hot = entries ∧ parts.cold ≤ merging.cold.entries ∧
      parts.hot ≤ EntryStore.entries merging.wrapped

def Stack.Balanced : (depth : Nat) → Stack τ depth → Prop
  | 0, _ => True
  | depth + 1, (merging : Merging τ (Stack τ depth)) =>
      merging.Balanced ∧ Stack.Balanced depth merging.wrapped

theorem Stack.Settled.balanced {depth : Nat} {stack : Stack τ depth}
    (settled : stack.Settled depth) : stack.Balanced depth := by
  induction depth with
  | zero => trivial
  | succ depth ih =>
      exact ⟨⟨rfl, settled.expected, fun carry entries enough => Split.of_exists carry enough⟩,
        ih settled.wrapped⟩

/-! Indexes -/

namespace Index

variable {index inner : Index τ}

inductive Wraps (partitionSize startingEntries : Nat) (inner index : Index τ) : Prop
  | eager (built : inner.eager partitionSize startingEntries = .ok index)
  | deferred {policy : ReorganizationPolicy τ}
      (built : inner.deferred partitionSize startingEntries policy = .ok index)
  | inPlace (built : inner.inPlace partitionSize startingEntries = .ok index)

/-- The indexes that can be built and called for. -/
inductive Reachable : Index τ → Prop
  | tree {disk : Disk τ} {keySize dataSize nodeSize : Nat} {index : Index τ}
      (built : Index.tree disk keySize dataSize nodeSize = .ok index) : Reachable index
  | wrap {partitionSize startingEntries : Nat} {inner index : Index τ} (before : Reachable inner)
      (wraps : Wraps partitionSize startingEntries inner index) : Reachable index
  | call {index after : Index τ} {call : Call τ} {result : Except (Error τ) τ}
      (before : Reachable index) (called : index.call call = .ok (result, after)) :
      Reachable after

theorem Wraps.exists {partitionSize startingEntries : Nat}
    (wraps : Wraps partitionSize startingEntries inner index) :
    ∃ variant cold invalidation, cold.Valid ∧
      inner.partitions partitionSize startingEntries invalidation = .ok cold.base ∧
      cold.entries = startingEntries ∧ index = inner.wrap variant cold := by
  cases wraps with
  | eager built =>
      obtain ⟨store, created, rest⟩ := Except.exists_of_bind built
      obtain ⟨sound, entries⟩ := PartitionStore.create_sound created
      cases rest
      exact ⟨.eager, .plain store, .blockRewrite, sound, created, entries, rfl⟩
  | deferred built =>
      obtain ⟨store, created, rest⟩ := Except.exists_of_bind built
      obtain ⟨sound, entries⟩ := PartitionStore.create_sound created
      obtain ⟨grouped, arranged, wrapped⟩ := Except.exists_of_bind rest
      obtain ⟨represented, rfl⟩ := GroupedStore.create_represented sound arranged
      cases wrapped
      exact ⟨.deferred, .grouped grouped, .blockRewrite, represented, created, entries, rfl⟩
  | inPlace built =>
      unfold Index.inPlace at built
      split at built
      · obtain ⟨store, created, rest⟩ := Except.exists_of_bind built
        obtain ⟨sound, entries⟩ := PartitionStore.create_sound created
        cases rest
        exact ⟨.inPlace, .plain store, .inPlace, sound, created, entries, rfl⟩
      · cases built

/-- A new level adds its cold entries to those of the index that it wraps. -/
theorem Wraps.entries {partitionSize startingEntries : Nat}
    (wraps : Wraps partitionSize startingEntries inner index) :
    index.entries = startingEntries + inner.entries := by
  obtain ⟨variant, cold, _, _, _, entries, rfl⟩ := wraps.exists
  exact congrArg (· + inner.entries) entries

def Settled (index : Index τ) : Prop := Stack.Settled index.depth index.stack

theorem wrap_settled (settled : inner.Settled) {cold : ColdTier τ} (valid : cold.Valid)
    (variant : MergingVariant) : (inner.wrap variant cold).Settled :=
  ⟨⟨valid, settled⟩, rfl⟩

theorem call_of_outcome {depth : Nat} {stack after : Stack τ depth} {machine finish : Machine τ}
    {call : Call τ} {result : Except (Error τ) τ}
    (ran : outcome call.action ⟨stack, machine⟩ = .ok (result, ⟨after, finish⟩)) :
    Index.call ⟨depth, stack, machine⟩ call = .ok (result, ⟨depth, after, finish⟩) := by
  simp only [Index.call, perform, ran]
  rfl

theorem run_of_call {index between after : Index τ} {call : Call τ} {rest : List (Call τ)}
    {result : Except (Error τ) τ} {results : List (Except (Error τ) τ)}
    (called : index.call call = .ok (result, between))
    (ran : between.run rest = .ok (results, after)) :
    index.run (call :: rest) = .ok (result :: results, after) := by
  simp only [run, called, bind, Except.bind, ran]
  rfl

theorem call_exists (settled : index.Settled) (call : Call τ) :
    ∃ result after, index.call call = .ok (result, after) ∧ after.Settled ∧
      EntryStore.canBulkload after.stack = EntryStore.canBulkload index.stack ∧
      after.entries = call.entriesAfter (EntryStore.canBulkload index.stack) index.entries ∧
      (call.isPlain → ∃ time, result = .ok time) := by
  obtain ⟨result, stack, machine, ran, still, entries, plain⟩ :=
    Stack.call_exists settled call index.machine
  exact ⟨result, ⟨index.depth, stack, machine⟩, call_of_outcome ran, still,
    Stack.canBulkload_eq _ _, entries, plain⟩

theorem Reachable.settled (reachable : index.Reachable) : index.Settled := by
  induction reachable with
  | tree built =>
      obtain ⟨tree, _, rest⟩ := Except.exists_of_bind built
      cases rest
      trivial
  | wrap _ wraps ih =>
      obtain ⟨variant, cold, _, valid, _, _, rfl⟩ := wraps.exists
      exact wrap_settled ih valid variant
  | @call index after call result _ called ih =>
      obtain ⟨_, _, ended, settled, _⟩ := call_exists ih call
      rw [called] at ended
      cases ended
      exact settled

/-- Whatever calls are made on an index, none of them breaks off; both sides of each level keep
making up the whole, and each call changes the number of entries by what it was asked for. -/
theorem run_balanced (reachable : index.Reachable) (calls : List (Call τ)) :
    ∃ results after, index.run calls = .ok (results, after) ∧
      Stack.Balanced after.depth after.stack ∧
      after.entries =
        calls.foldl (Call.entriesAfter (EntryStore.canBulkload index.stack)) index.entries ∧
      List.Forall₂ (fun call result => call.isPlain → ∃ time, result = .ok time) calls results := by
  have settled := reachable.settled
  clear reachable
  induction calls generalizing index with
  | nil => exact ⟨[], index, rfl, settled.balanced, rfl, .nil⟩
  | cons call rest ih =>
      obtain ⟨result, between, called, still, same, entries, plain⟩ := call_exists settled call
      obtain ⟨results, after, ran, balanced, left, plains⟩ := ih still
      refine ⟨result :: results, after, ?_, balanced, ?_, .cons plain plains⟩
      · simp only [run, called, bind, Except.bind, ran]
        rfl
      · rw [left, List.foldl_cons, entries, same]

theorem run_of_nested_merging :
    ∃ tree inner index : Index Rat,
      Index.tree (.create (.pcm ⟨⟨"PCM", 64, 1, 2⟩, 0⟩)) 1 1 8 = .ok tree ∧
      tree.inPlace 4 5 = .ok inner ∧ inner.eager 4 7 = .ok index ∧
      ∃ results after, index.run [.find .point 7 2, .delete 5, .insert 1] = .ok (results, after) ∧
        after.entries = 8 := by
  obtain ⟨tree, planted, empty⟩ : ∃ tree : Index Rat,
      Index.tree (.create (.pcm ⟨⟨"PCM", 64, 1, 2⟩, 0⟩)) 1 1 8 = .ok tree ∧
        tree.entries = 0 := ⟨_, rfl, rfl⟩
  obtain ⟨inner, first⟩ : ∃ inner, tree.inPlace 4 5 = .ok inner := by
    cases planted
    exact ⟨_, rfl⟩
  obtain ⟨index, second⟩ : ∃ index, inner.eager 4 7 = .ok index := by
    cases planted
    cases first
    exact ⟨_, rfl⟩
  have firstEntries := (Wraps.inPlace first).entries
  have secondEntries := (Wraps.eager second).entries
  have reachable : index.Reachable := .wrap (.wrap (.tree planted) (.inPlace first)) (.eager second)
  obtain ⟨results, after, ran, _, entries, _⟩ :=
    run_balanced reachable [.find .point 7 2, .delete 5, .insert 1]
  refine ⟨tree, inner, index, planted, first, second, results, after, ran, ?_⟩
  rw [entries, secondEntries, firstEntries, empty]
  rfl

end Index

end MergeCost
