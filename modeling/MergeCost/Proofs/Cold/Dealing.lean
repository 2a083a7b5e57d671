import MergeCost.Proofs.Cold.Drain
import Mathlib.Data.Nat.ModEq

/-!
Going round the partitions, and dealing single entries. As long as there is an entry left, some turn
of the next round finds it, so a deal of entries that are there comes to an end.
-/

namespace MergeCost

namespace PartitionStore

variable {store : PartitionStore}

/-! Cursors -/

def withCursors (store : PartitionStore) (point range : Nat) : PartitionStore :=
  { store with pointCursor := point, rangeCursor := range }

/-- A store after a lookup has moved its cursor. -/
def moved (store : PartitionStore) (cursor : Nat) : Lookup → PartitionStore
  | .point => store.withCursors cursor store.rangeCursor
  | .range => store.withCursors store.pointCursor cursor

/-- Where a kind of lookup goes on. -/
def cursor (store : PartitionStore) : Lookup → Nat
  | .point => store.pointCursor
  | .range => store.rangeCursor

@[simp] theorem moved_cursor (store : PartitionStore) (lookup : Lookup) :
    store.moved (store.cursor lookup) lookup = store := by
  cases lookup <;> rfl

@[simp] theorem cursor_moved (store : PartitionStore) (cursor : Nat) (lookup : Lookup) :
    (store.moved cursor lookup).cursor lookup = cursor := by
  cases lookup <;> rfl

@[simp] theorem moved_moved (store : PartitionStore) (first second : Nat) (lookup : Lookup) :
    (store.moved first lookup).moved second lookup = store.moved second lookup := by
  cases lookup <;> rfl

theorem Sound.moved (sound : store.Sound) {cursor : Nat}
    (inside : 0 < store.partitions.size → cursor < store.partitions.size) (lookup : Lookup) :
    (store.moved cursor lookup).Sound := by
  cases lookup with
  | point =>
      exact ⟨sound.recordSize_pos, sound.perPartition_pos, sound.bounded, inside,
        sound.rangeCursor_lt⟩
  | range =>
      exact ⟨sound.recordSize_pos, sound.perPartition_pos, sound.bounded, sound.pointCursor_lt,
        inside⟩

/-! Going round the partitions: within one round each position is met, and none is met twice -/

theorem exists_turn {cursor size position : Nat} (start : cursor < size)
    (inside : position < size) :
    ∃ turn < size, (cursor + turn) % size = position := by
  by_cases ahead : cursor ≤ position
  · refine ⟨position - cursor, by omega, ?_⟩
    rw [Nat.add_sub_cancel' ahead, Nat.mod_eq_of_lt inside]
  · refine ⟨position + size - cursor, by omega, ?_⟩
    rw [show cursor + (position + size - cursor) = position + size by omega, Nat.add_mod_right,
      Nat.mod_eq_of_lt inside]

theorem turn_unique {cursor size first second : Nat} (firstTurn : first < size)
    (secondTurn : second < size) (same : (cursor + first) % size = (cursor + second) % size) :
    first = second := by
  have congruent : first ≡ second [MOD size] := Nat.ModEq.add_left_cancel' cursor same
  rwa [Nat.ModEq, Nat.mod_eq_of_lt firstTurn, Nat.mod_eq_of_lt secondTurn] at congruent

theorem next_turn (cursor size turn : Nat) :
    ((cursor + 1) % size + turn) % size = (cursor + (turn + 1)) % size := by
  rw [Nat.mod_add_mod, Nat.add_assoc, Nat.add_comm 1 turn]

/-- The partitions that a lookup meets in so many turns from a cursor. -/
def met (store : PartitionStore) (cursor turns : Nat) : List Nat :=
  (List.range turns).map fun turn => (cursor + turn) % store.partitions.size

theorem met_succ {cursor : Nat} (inside : cursor < store.partitions.size) (turns : Nat) :
    store.met cursor (turns + 1) =
      cursor :: store.met ((cursor + 1) % store.partitions.size) turns := by
  simp only [met, List.range_succ_eq_map, List.map_cons, List.map_map, Nat.add_zero,
    Nat.mod_eq_of_lt inside, Function.comp_def, next_turn, Nat.succ_eq_add_one]

theorem met_concat (store : PartitionStore) (cursor turns : Nat) :
    store.met cursor (turns + 1) =
      store.met cursor turns ++ [(cursor + turns) % store.partitions.size] := by
  simp [met, List.range_succ]

theorem nodup_met {turns : Nat} (few : turns ≤ store.partitions.size) (cursor : Nat) :
    (store.met cursor turns).Nodup := by
  refine List.nodup_range.map_on ?_
  intro first firstTurn second secondTurn same
  have firstLt := List.mem_range.mp firstTurn
  have secondLt := List.mem_range.mp secondTurn
  exact turn_unique (by omega) (by omega) same

/-! Dealing single entries

A deal tells what a listing comes to: what each partition has left, and which have given entries.
-/

/-- A deal under way: the partition that is next, what each partition has left, and the partitions
that have given entries, the last one first. -/
structure Deal where
  cursor : Nat
  left : Array Nat
  givers : List Nat

/-- The first partition with something left among the next so many. -/
def nextGiver (left : Array Nat) : Nat → Nat → Except Fault Nat
  | 0, _ => .error .nothingLeftToLocate
  | turns + 1, cursor =>
      match left[cursor]? with
      | none => .error (.partitionOutOfRange cursor)
      | some rest =>
          if rest = 0 then nextGiver left turns ((cursor + 1) % left.size) else .ok cursor

/-- Takes one entry from a partition; it is a new giver if it had all its entries until now. -/
def Deal.give (deal : Deal) (store : PartitionStore) (partition : Nat) : Deal :=
  let givers :=
    if deal.left.getD partition 0 = store.remaining partition then partition :: deal.givers
    else deal.givers
  let cursor := (partition + 1) % deal.left.size
  ⟨cursor, deal.left.modify partition (· - 1), givers⟩

def Deal.run (store : PartitionStore) : Nat → Deal → Except Fault Deal
  | 0, deal => .ok deal
  | entries + 1, deal => do
      let partition ← nextGiver deal.left deal.left.size deal.cursor
      Deal.run store entries (deal.give store partition)

theorem nextGiver_succ {left : Array Nat} {cursor : Nat} (inside : cursor < left.size)
    (turns : Nat) :
    nextGiver left (turns + 1) cursor =
      if left.getD cursor 0 = 0 then nextGiver left turns ((cursor + 1) % left.size)
      else .ok cursor := by
  simp only [nextGiver, Array.getElem?_eq_getElem inside, Array.getD_eq_getD_getElem?,
    Option.getD_some]

theorem nextGiver_exists {left : Array Nat} {turns cursor : Nat} (start : cursor < left.size)
    (ahead : ∃ turn < turns, left.getD ((cursor + turn) % left.size) 0 ≠ 0) :
    ∃ partition, nextGiver left turns cursor = .ok partition ∧
      left.getD partition 0 ≠ 0 ∧ partition < left.size := by
  induction turns generalizing cursor with
  | zero =>
      obtain ⟨turn, before, _⟩ := ahead
      omega
  | succ turns ih =>
      by_cases empty : left.getD cursor 0 = 0
      · obtain ⟨turn, before, has⟩ := ahead
        cases turn with
        | zero =>
            rw [Nat.add_zero, Nat.mod_eq_of_lt start] at has
            exact absurd empty has
        | succ turn =>
            rw [nextGiver_succ start, if_pos empty]
            exact ih (Nat.mod_lt _ (by omega)) ⟨turn, by omega, by rwa [next_turn]⟩
      · exact ⟨cursor, by rw [nextGiver_succ start, if_neg empty], empty, start⟩

theorem nextGiver_sound {left : Array Nat} {turns cursor giver : Nat}
    (found : nextGiver left turns cursor = .ok giver) :
    left.getD giver 0 ≠ 0 ∧ giver < left.size := by
  induction turns generalizing cursor with
  | zero => cases found
  | succ turns ih =>
      by_cases inside : cursor < left.size
      · rw [nextGiver_succ inside] at found
        by_cases empty : left.getD cursor 0 = 0
        · rw [if_pos empty] at found
          exact ih found
        · rw [if_neg empty] at found
          cases found
          exact ⟨empty, inside⟩
      · rw [nextGiver, Array.getElem?_eq_none (Nat.le_of_not_lt inside)] at found
        cases found

def Deal.rest (deal : Deal) (store : PartitionStore) : Nat :=
  ∑ partition ∈ Finset.range store.partitions.size, deal.left.getD partition 0

/-- The givers of a deal are those that have less than at its start, each of them once. -/
structure Deal.Valid (deal : Deal) (store : PartitionStore) : Prop where
  size_eq : deal.left.size = store.partitions.size
  cursor_lt : deal.cursor < store.partitions.size
  left_le : ∀ partition, deal.left.getD partition 0 ≤ store.remaining partition
  givers_nodup : deal.givers.Nodup
  mem_givers : ∀ partition,
    partition ∈ deal.givers ↔ deal.left.getD partition 0 < store.remaining partition

theorem Deal.getD_give (deal : Deal) (store : PartitionStore) (giver partition : Nat) :
    (deal.give store giver).left.getD partition 0 =
      deal.left.getD partition 0 - if partition = giver then 1 else 0 := by
  simp only [Deal.give, Array.getD_eq_getD_getElem?, Array.getElem?_modify]
  by_cases same : giver = partition
  · subst same
    cases deal.left[giver]? <;> simp
  · simp [same, Ne.symm same]

theorem Deal.givers_give (deal : Deal) (store : PartitionStore) (giver : Nat) :
    (deal.give store giver).givers =
      if deal.left.getD giver 0 = store.remaining giver then giver :: deal.givers
      else deal.givers := rfl

theorem Deal.mem_givers_give (deal : Deal) (store : PartitionStore) (giver partition : Nat) :
    partition ∈ (deal.give store giver).givers ↔
      partition = giver ∧ deal.left.getD giver 0 = store.remaining giver ∨
        partition ∈ deal.givers := by
  rw [Deal.givers_give]
  by_cases untouched : deal.left.getD giver 0 = store.remaining giver
  · rw [if_pos untouched]
    simp only [untouched, and_true, List.mem_cons]
  · rw [if_neg untouched]
    simp only [untouched, and_false, false_or]

theorem Deal.Valid.give {deal : Deal} {giver : Nat} (valid : deal.Valid store)
    (has : deal.left.getD giver 0 ≠ 0) (inside : giver < deal.left.size) :
    (deal.give store giver).Valid store := by
  have least := valid.left_le giver
  constructor
  case size_eq => simpa [Deal.give] using valid.size_eq
  case cursor_lt =>
    rw [← valid.size_eq]
    exact Nat.mod_lt _ (by omega)
  case left_le =>
    intro partition
    have := valid.left_le partition
    rw [Deal.getD_give]
    omega
  case givers_nodup =>
    rw [Deal.givers_give]
    by_cases untouched : deal.left.getD giver 0 = store.remaining giver
    · have new : giver ∉ deal.givers := by
        rw [valid.mem_givers]
        omega
      rw [if_pos untouched]
      exact List.nodup_cons.mpr ⟨new, valid.givers_nodup⟩
    · rw [if_neg untouched]
      exact valid.givers_nodup
  case mem_givers =>
    intro partition
    rw [Deal.mem_givers_give, Deal.getD_give, valid.mem_givers]
    by_cases same : partition = giver
    · subst same
      simp only [true_and, if_true]
      omega
    · simp [same]

theorem Deal.rest_give {deal : Deal} {giver : Nat} (has : deal.left.getD giver 0 ≠ 0)
    (inside : giver < store.partitions.size) :
    (deal.give store giver).rest store + 1 = deal.rest store := by
  have each (partition : Nat) : deal.left.getD partition 0 =
      (deal.give store giver).left.getD partition 0 + if giver = partition then 1 else 0 := by
    rw [Deal.getD_give]
    by_cases same : giver = partition
    · subst same
      simp only [if_true]
      omega
    · simp [same, Ne.symm same]
  unfold Deal.rest
  rw [Finset.sum_congr rfl fun partition _ => each partition, Finset.sum_add_distrib,
    Finset.sum_ite_eq, if_pos (Finset.mem_range.mpr inside)]

theorem Deal.run_exists {deal : Deal} {entries : Nat} (valid : deal.Valid store)
    (enough : entries ≤ deal.rest store) :
    ∃ after, Deal.run store entries deal = .ok after ∧ after.Valid store ∧
      after.rest store + entries = deal.rest store := by
  induction entries generalizing deal with
  | zero => exact ⟨deal, rfl, valid, rfl⟩
  | succ entries ih =>
      have ahead : ∃ turn < deal.left.size,
          deal.left.getD ((deal.cursor + turn) % deal.left.size) 0 ≠ 0 := by
        by_contra none
        push Not at none
        have empty : deal.rest store = 0 := by
          apply Finset.sum_eq_zero
          intro partition member
          obtain ⟨turn, before, position⟩ :=
            exists_turn valid.cursor_lt (Finset.mem_range.mp member)
          rw [← valid.size_eq] at before position
          simpa only [position] using none turn before
        omega
      obtain ⟨giver, found, has, inside⟩ :=
        nextGiver_exists (valid.size_eq ▸ valid.cursor_lt) ahead
      have given : (deal.give store giver).rest store + 1 = deal.rest store :=
        Deal.rest_give has (by rw [← valid.size_eq]; exact inside)
      obtain ⟨after, run, stillValid, rest⟩ := ih (valid.give has inside) (by omega)
      refine ⟨after, ?_, stillValid, by omega⟩
      rw [Deal.run, found]
      exact run

/-- What the givers of a deal have given makes up all that is not left. -/
theorem Deal.Valid.given_sum {deal : Deal} (valid : deal.Valid store) :
    (deal.givers.map fun partition =>
      store.remaining partition - deal.left.getD partition 0).sum + deal.rest store =
      store.entries := by
  have given : (deal.givers.map fun partition =>
      store.remaining partition - deal.left.getD partition 0).sum =
      ∑ partition ∈ Finset.range store.partitions.size,
        (store.remaining partition - deal.left.getD partition 0) := by
    rw [← List.sum_toFinset _ valid.givers_nodup]
    apply Finset.sum_subset
    · intro partition member
      have := (valid.mem_givers partition).mp (List.mem_toFinset.mp member)
      exact Finset.mem_range.mpr (lt_size_of_remaining (by omega))
    · intro partition _ other
      rw [List.mem_toFinset, valid.mem_givers] at other
      omega
  rw [given, Deal.rest, ← Finset.sum_add_distrib, entries_eq_sum]
  apply Finset.sum_congr rfl
  intro partition _
  have := valid.left_le partition
  omega

/-- A deal before its first entry. -/
def undealt (store : PartitionStore) : Deal :=
  ⟨store.pointCursor, store.partitions.map Partition.remaining, []⟩

theorem left_undealt (store : PartitionStore) (partition : Nat) :
    store.undealt.left.getD partition 0 = store.remaining partition := by
  simp [undealt, remaining, Array.getD_eq_getD_getElem?]

theorem undealt_valid (inside : store.pointCursor < store.partitions.size) :
    store.undealt.Valid store where
  size_eq := Array.size_map
  cursor_lt := inside
  left_le := fun partition => (left_undealt store partition).le
  givers_nodup := .nil
  mem_givers := by
    intro partition
    rw [left_undealt]
    simp [undealt]

/-- What has been dealt so far, in the order of the first entries. -/
def Deal.located (deal : Deal) (store : PartitionStore) : List Located :=
  deal.givers.reverse.map fun partition =>
    ⟨partition, store.remaining partition - deal.left.getD partition 0⟩

theorem Deal.Valid.allots {deal : Deal} (valid : deal.Valid store) :
    store.Allots (deal.located store) := by
  constructor
  case distinct => simpa [Deal.located, Function.comp_def] using valid.givers_nodup
  case available =>
    intro part member
    simp only [Deal.located, List.mem_map, List.mem_reverse] at member
    obtain ⟨partition, giver, rfl⟩ := member
    have := (valid.mem_givers partition).mp giver
    simp only
    omega

theorem Deal.Valid.sum_located {deal : Deal} (valid : deal.Valid store) :
    ((deal.located store).map Located.entries).sum + deal.rest store = store.entries := by
  have sum := valid.given_sum
  simpa [Deal.located, Function.comp_def, List.map_reverse, List.sum_reverse] using sum

theorem Deal.Valid.entriesIn_located {deal : Deal} (valid : deal.Valid store) (partition : Nat) :
    entriesIn (deal.located store) partition =
      store.remaining partition - deal.left.getD partition 0 := by
  rw [Deal.located, entriesIn_map (List.nodup_reverse.mpr valid.givers_nodup)]
  simp only [List.mem_reverse, valid.mem_givers]
  split <;> omega

end PartitionStore

end MergeCost
