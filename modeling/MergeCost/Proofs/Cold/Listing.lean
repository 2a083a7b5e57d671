import MergeCost.Proofs.Cold.Dealing
import MergeCost.Simulation.Outcome

/-!
Listing single entries. A listing keeps the slot of each partition that has given entries, and finds
in it what is planned of the partition. Step by step it lists what a deal tells: the givers stand in
the list in the order of their first entry, and what is planned of one is what it no longer has
left.
-/

namespace MergeCost

namespace PartitionStore

variable {store : PartitionStore} {listing : Listing} {deal : Deal}

/-- A listing that has come as far as a deal: each giver has the slot where it stands in the
list. -/
structure Listing.Matches (listing : Listing) (store : PartitionStore) (deal : Deal) : Prop where
  cursor_eq : listing.cursor = deal.cursor
  size_eq : listing.slots.size = deal.left.size
  located_eq : listing.located.toList = deal.located store
  slot_iff : ∀ partition slot, listing.slots.getD partition none = some slot ↔
    deal.givers.reverse[slot]? = some partition

theorem Deal.getElem?_located (deal : Deal) (store : PartitionStore) (slot : Nat) :
    (deal.located store)[slot]? = deal.givers.reverse[slot]?.map fun partition =>
      ⟨partition, store.remaining partition - deal.left.getD partition 0⟩ :=
  List.getElem?_map

theorem Listing.Matches.getElem?_located (agrees : listing.Matches store deal) (slot : Nat) :
    listing.located[slot]? = (deal.located store)[slot]? := by
  rw [← agrees.located_eq, Array.getElem?_toList]

theorem Listing.Matches.slot_none_iff (agrees : listing.Matches store deal) (partition : Nat) :
    listing.slots.getD partition none = none ↔ partition ∉ deal.givers := by
  rw [Option.eq_none_iff_forall_ne_some, ← List.mem_reverse, List.mem_iff_getElem?, not_exists]
  exact forall_congr' fun slot => not_congr (agrees.slot_iff partition slot)

theorem Listing.Matches.planned_eq (agrees : listing.Matches store deal)
    (valid : deal.Valid store) (partition : Nat) :
    listing.planned partition = store.remaining partition - deal.left.getD partition 0 := by
  cases placed : listing.slots.getD partition none with
  | none =>
      have untouched := (agrees.slot_none_iff partition).mp placed
      rw [valid.mem_givers] at untouched
      simp only [planned, placed]
      omega
  | some slot =>
      have giver := (agrees.slot_iff partition slot).mp placed
      simp only [planned, placed, agrees.getElem?_located, Deal.getElem?_located, giver,
        Option.map_some, Option.getD_some]

theorem Listing.Matches.nextGiver_eq (agrees : listing.Matches store deal)
    (valid : deal.Valid store) {cursor : Nat} (inside : cursor < store.partitions.size)
    (turns : Nat) :
    listing.nextGiver store turns cursor = PartitionStore.nextGiver deal.left turns cursor := by
  induction turns generalizing cursor with
  | zero => rfl
  | succ turns ih =>
      have found := Array.getElem?_eq_getElem inside
      have left_le := valid.left_le cursor
      rw [nextGiver_succ (valid.size_eq ▸ inside), Listing.nextGiver, found]
      simp only [agrees.planned_eq valid, ← remaining_of_getElem? found]
      by_cases empty : deal.left.getD cursor 0 = 0
      · rw [if_neg (by omega), if_pos empty, valid.size_eq]
        exact ih (Nat.mod_lt _ (by omega))
      · rw [if_pos (by omega), if_neg empty]

/-- An entry of a giver is added in its slot, and no other slot is of it. -/
theorem Listing.Matches.give_again (agrees : listing.Matches store deal)
    (valid : deal.Valid store) {giver slot : Nat} (has : deal.left.getD giver 0 ≠ 0)
    (placed : listing.slots.getD giver none = some slot) :
    (listing.give giver).Matches store (deal.give store giver) := by
  have stands := (agrees.slot_iff giver slot).mp placed
  have lower : deal.left.getD giver 0 < store.remaining giver := by
    rw [← valid.mem_givers, ← List.mem_reverse]
    exact List.mem_of_getElem? stands
  have givers : (deal.give store giver).givers = deal.givers := by
    rw [Deal.givers_give, if_neg (by omega)]
  simp only [Listing.give, placed]
  constructor
  case cursor_eq => rw [agrees.size_eq]; rfl
  case size_eq => simpa [Deal.give] using agrees.size_eq
  case slot_iff => simpa only [givers] using agrees.slot_iff
  case located_eq =>
    apply List.ext_getElem?
    intro other
    rw [Deal.getElem?_located, givers, Array.getElem?_toList, Array.getElem?_modify,
      agrees.getElem?_located, Deal.getElem?_located]
    by_cases same : slot = other
    · subst same
      simp only [if_true, stands, Option.map_some, Deal.getD_give]
      congr 2
      omega
    · rw [if_neg same]
      apply Option.map_congr
      intro partition member
      have apart : partition ≠ giver := by
        rintro rfl
        rw [← agrees.slot_iff, placed, Option.some.injEq] at member
        exact same member
      rw [Deal.getD_give, if_neg apart, Nat.sub_zero]

theorem getElem?_concat_iff (givers : List Nat) (last partition slot : Nat) :
    (givers ++ [last])[slot]? = some partition ↔
      givers[slot]? = some partition ∨ slot = givers.length ∧ last = partition := by
  rcases Nat.lt_trichotomy slot givers.length with before | rfl | behind
  · rw [List.getElem?_append_left before]
    simp only [before.ne, false_and, or_false]
  · simp
  · have outside : (givers ++ [last]).length ≤ slot := by
      rw [List.length_append, List.length_singleton]
      exact behind
    rw [List.getElem?_eq_none outside, List.getElem?_eq_none behind.le]
    simp only [behind.ne', reduceCtorEq, false_and, or_false]

/-- A new giver gets the slot at the end of the list. -/
theorem Listing.Matches.give_first (agrees : listing.Matches store deal)
    (valid : deal.Valid store) {giver : Nat} (has : deal.left.getD giver 0 ≠ 0)
    (inside : giver < deal.left.size) (placed : listing.slots.getD giver none = none) :
    (listing.give giver).Matches store (deal.give store giver) := by
  have new := (agrees.slot_none_iff giver).mp placed
  have left_le := valid.left_le giver
  have untouched : deal.left.getD giver 0 = store.remaining giver := by
    rw [valid.mem_givers] at new
    omega
  have givers : (deal.give store giver).givers = giver :: deal.givers := by
    rw [Deal.givers_give, if_pos untouched]
  have count : listing.located.size = deal.givers.length := by
    rw [← Array.length_toList, agrees.located_eq]
    simp [Deal.located]
  simp only [Listing.give, placed]
  constructor
  case cursor_eq => rw [agrees.size_eq]; rfl
  case size_eq => simpa [Deal.give] using agrees.size_eq
  case slot_iff =>
    intro partition slot
    rw [givers, List.reverse_cons, getElem?_concat_iff, List.length_reverse, ← agrees.slot_iff,
      Array.getD_eq_getD_getElem?, Array.getElem?_setIfInBounds]
    by_cases same : giver = partition
    · subst same
      rw [if_pos rfl, if_pos (agrees.size_eq ▸ inside), Option.getD_some, placed, count,
        Option.some.injEq]
      simp only [reduceCtorEq, false_or, and_true]
      exact eq_comm
    · rw [if_neg same, ← Array.getD_eq_getD_getElem?]
      simp only [same, and_false, or_false]
  case located_eq =>
    rw [Array.toList_push, agrees.located_eq, Deal.located, Deal.located, givers,
      List.reverse_cons, List.map_append, List.map_singleton, Deal.getD_give, if_pos rfl]
    congr 1
    · apply List.map_congr_left
      intro partition member
      have apart : partition ≠ giver := by
        rintro rfl
        exact new (List.mem_reverse.mp member)
      rw [Deal.getD_give, if_neg apart, Nat.sub_zero]
    · congr 2
      omega

theorem Listing.Matches.give (agrees : listing.Matches store deal) (valid : deal.Valid store)
    {giver : Nat} (has : deal.left.getD giver 0 ≠ 0) (inside : giver < deal.left.size) :
    (listing.give giver).Matches store (deal.give store giver) := by
  cases placed : listing.slots.getD giver none with
  | none => exact agrees.give_first valid has inside placed
  | some slot => exact agrees.give_again valid has placed

/-- A run lists what the deal tells, entry by entry. -/
theorem Listing.Matches.run {entries : Nat} {after : Deal} (agrees : listing.Matches store deal)
    (valid : deal.Valid store) (ran : Deal.run store entries deal = .ok after) :
    ∃ listed, Listing.run store entries listing = .ok listed ∧ listed.Matches store after := by
  induction entries generalizing listing deal with
  | zero =>
      cases ran
      exact ⟨listing, rfl, agrees⟩
  | succ entries ih =>
      obtain ⟨giver, found, rest⟩ := Except.exists_of_bind ran
      obtain ⟨has, inside⟩ := nextGiver_sound found
      obtain ⟨listed, listedRan, listedAgrees⟩ :=
        ih (agrees.give valid has inside) (valid.give has inside) rest
      refine ⟨listed, ?_, listedAgrees⟩
      rw [Listing.run, agrees.cursor_eq, agrees.nextGiver_eq valid valid.cursor_lt, ← valid.size_eq,
        found]
      exact listedRan

theorem unlisted_matches (store : PartitionStore) :
    store.unlisted.Matches store store.undealt where
  cursor_eq := rfl
  size_eq := by simp [unlisted, undealt]
  located_eq := rfl
  slot_iff := by
    intro partition slot
    simp only [unlisted, undealt, Array.getD_eq_getD_getElem?, Array.getElem?_replicate]
    split <;> simp

/-- Entries that are there are dealt to the last one. -/
theorem locate_deals (inside : store.pointCursor < store.partitions.size) {entries : Nat}
    (positive : 0 < entries) (enough : entries ≤ store.entries) :
    ∃ deal, Deal.run store entries store.undealt = .ok deal ∧ deal.Valid store ∧
      deal.rest store + entries = store.entries ∧
      store.locate .point entries =
        .ok (deal.located store, store.moved deal.cursor .point) := by
  have all : store.undealt.rest store = store.entries := by
    rw [entries_eq_sum]
    exact Finset.sum_congr rfl fun partition _ => left_undealt store partition
  obtain ⟨deal, ran, dealt, rest⟩ := Deal.run_exists (undealt_valid inside) (all ▸ enough)
  obtain ⟨listed, listedRan, agrees⟩ := (unlisted_matches store).run (undealt_valid inside) ran
  refine ⟨deal, ran, dealt, rest.trans all, ?_⟩
  simp only [locate, Nat.min_eq_left enough, if_neg (Nat.ne_of_gt positive), locatePoint,
    listedRan, ← agrees.located_eq, ← agrees.cursor_eq]
  rfl

end PartitionStore

end MergeCost
