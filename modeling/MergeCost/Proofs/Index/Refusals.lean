import MergeCost.Proofs.Index.Reachable

/-!
Calls that are refused. There are two reasons for a refusal, and both are found before anything is
done, so that a refused call leaves no trace at any level and on the disk. Between the levels
nothing is ever refused, since a level only ever inserts, finds and deletes in the index that it
wraps.
-/

namespace MergeCost

open Sim

variable {τ : Type} [Scalar τ]

/-- Whether a value is a share of a whole. A value that cannot be compared is none. -/
def IsShare (share : τ) : Prop :=
  Scalar.le Scalar.zero share = true ∧ Scalar.le share (Scalar.ofNat 1) = true

instance (share : τ) : Decidable (IsShare share) := inferInstanceAs (Decidable (_ ∧ _))

theorem entriesOfShare_exists {share : τ} (inside : IsShare share) (entries : Nat) :
    ∃ count, entriesOfShare entries share = .ok count :=
  ⟨_, if_pos (by simp [inside.1, inside.2])⟩

theorem entriesOfShare_refused {share : τ} (outside : ¬IsShare share) (entries : Nat) :
    entriesOfShare entries share = .error (.argument (.selectivity share entries)) := by
  refine if_neg fun inside => outside ?_
  rwa [Bool.and_eq_true] at inside

namespace Index

/-- The reasons for which an index refuses a call. -/
inductive Refuses (index : Index τ) : Call τ → Error τ → Prop
  /-- Only a bare tree takes a bulkload. -/
  | bulkload {entries : Nat} (wraps : 0 < index.depth) :
      Refuses index (.bulkload entries) (.bulkloadUnsupported index.name)
  | share {lookup : Lookup} {share : τ} {repeats : Nat} (outside : ¬IsShare share) :
      Refuses index (.findShare lookup share repeats) (.argument (.selectivity share index.entries))

variable {index : Index τ}

theorem Refuses.unique {call : Call τ} {first second : Error τ} (one : index.Refuses call first)
    (other : index.Refuses call second) : first = second := by
  cases one <;> cases other <;> rfl

theorem Refuses.not_plain {call : Call τ} {error : Error τ} (refuses : index.Refuses call error) :
    ¬call.isPlain := by
  cases refuses <;> exact Bool.false_ne_true

theorem bulkload_answered (index : Index τ) (entries : Nat) :
    (∃ time after, index.call (.bulkload entries) = .ok (.ok time, after) ∧ ¬0 < index.depth) ∨
      (index.call (.bulkload entries) = .ok (.error (.bulkloadUnsupported index.name), index) ∧
        0 < index.depth) := by
  obtain ⟨depth, stack, machine⟩ := index
  cases depth with
  | zero =>
      obtain ⟨time, after, finish, ran, _⟩ := BTree.bulkload_exists stack entries machine
      exact .inl ⟨time, _, call_of_outcome ran, Nat.lt_irrefl 0⟩
  | succ depth => exact .inr ⟨rfl, Nat.succ_pos depth⟩

theorem findShare_answered (settled : index.Settled) (lookup : Lookup) (share : τ)
    (repeats : Nat) :
    (∃ time after, index.call (.findShare lookup share repeats) = .ok (.ok time, after) ∧
        IsShare share) ∨
      (index.call (.findShare lookup share repeats) =
          .ok (.error (.argument (.selectivity share index.entries)), index) ∧
        ¬IsShare share) := by
  have shared := EntryStore.outcome_findShare lookup share repeats ⟨index.stack, index.machine⟩
  by_cases inside : IsShare share
  · obtain ⟨count, counted⟩ := entriesOfShare_exists inside (EntryStore.entries index.stack)
    obtain ⟨time, after, finish, found, _⟩ :=
      (Stack.conserves index.depth).find settled lookup count repeats index.machine
    simp only [counted] at shared
    exact .inl ⟨time, _, call_of_outcome (shared.trans found), inside⟩
  · simp only [entriesOfShare_refused inside] at shared
    exact .inr ⟨call_of_outcome shared, inside⟩

/-- Every call ends in a time, or in the one reason that there is to refuse it. -/
theorem call_answered (settled : index.Settled) (call : Call τ) :
    (∃ time after, index.call call = .ok (.ok time, after) ∧
        ∀ error, ¬index.Refuses call error) ∨
      ∃ error, index.call call = .ok (.error error, index) ∧ index.Refuses call error := by
  by_cases plain : call.isPlain
  · obtain ⟨result, after, called, _, _, _, answered⟩ := call_exists settled call
    obtain ⟨time, rfl⟩ := answered plain
    exact .inl ⟨time, after, called, fun error refuses => refuses.not_plain plain⟩
  · cases call with
    | bulkload entries =>
        rcases bulkload_answered index entries with ⟨time, after, called, bare⟩ | ⟨called, wraps⟩
        · exact .inl ⟨time, after, called, fun error refuses => by cases refuses; contradiction⟩
        · exact .inr ⟨_, called, .bulkload wraps⟩
    | findShare lookup share repeats =>
        rcases findShare_answered settled lookup share repeats with
          ⟨time, after, called, inside⟩ | ⟨called, outside⟩
        · exact .inl ⟨time, after, called, fun error refuses => by cases refuses; contradiction⟩
        · exact .inr ⟨_, called, .share outside⟩
    | _ => exact absurd rfl plain

/-- A call is refused exactly for one of the two reasons, and a refused call leaves the whole index
as it was, with its disk and its ledgers. -/
theorem call_refused_iff (reachable : index.Reachable) (call : Call τ) :
    ∃ result after, index.call call = .ok (result, after) ∧
      (∀ error, result = .error error ↔ index.Refuses call error) ∧
      (∀ error, result = .error error → after = index) := by
  rcases call_answered reachable.settled call with
    ⟨time, after, called, accepted⟩ | ⟨error, called, refuses⟩
  · refine ⟨.ok time, after, called, fun error => ?_, fun error same => nomatch same⟩
    constructor
    · rintro ⟨⟩
    · exact fun refuses => absurd refuses (accepted error)
  · refine ⟨.error error, index, called, fun other => ?_, fun _ _ => rfl⟩
    constructor
    · rintro ⟨⟩
      exact refuses
    · intro again
      rw [again.unique refuses]

/-- The share of nothing in nothing is no number. -/
theorem call_refused_of_no_number :
    ∃ tree index : Index Float,
      Index.tree (.create (.pcm ⟨⟨"PCM", 64, 1, 2⟩, 0⟩)) 1 1 8 = .ok tree ∧
      tree.eager 4 7 = .ok index ∧
      index.call (.findShare .range (0 / 0) 1) =
        .ok (.error (.argument (.selectivity (0 / 0) 7)), index) := by
  obtain ⟨tree, planted, empty⟩ : ∃ tree : Index Float,
      Index.tree (.create (.pcm ⟨⟨"PCM", 64, 1, 2⟩, 0⟩)) 1 1 8 = .ok tree ∧
        tree.entries = 0 := ⟨_, rfl, rfl⟩
  obtain ⟨index, wrapped⟩ : ∃ index, tree.eager 4 7 = .ok index := by
    cases planted
    exact ⟨_, rfl⟩
  have entries : index.entries = 7 := by
    rw [(Wraps.eager wrapped).entries, empty]
  have noShare : ¬IsShare (0 / 0 : Float) := by decide +kernel
  have reachable : index.Reachable := .wrap (.tree planted) (.eager wrapped)
  obtain ⟨result, after, called, refused, same⟩ :=
    call_refused_iff reachable (.findShare .range (0 / 0) 1)
  have error := (refused _).mpr (.share noShare)
  refine ⟨tree, index, planted, wrapped, ?_⟩
  rw [called, same _ error, error, entries]

end Index

end MergeCost
