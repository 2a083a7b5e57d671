import MergeCost.Proofs.Cold.Lookups

/-!
How point lookups deal. They go round the partitions visit by visit, and each visit takes one entry
from a partition that still has one. So a partition has given as many entries as it has been
visited, or all that it had, and the visits of two partitions differ by one at most.
-/

namespace MergeCost

namespace PartitionStore

variable {store : PartitionStore} {start visits : Nat}

/-! Counting visits -/

theorem count_met_self (some : 0 < store.partitions.size) (start visits : Nat) :
    (store.met start visits).count ((start + visits) % store.partitions.size) = 0 ↔
      visits < store.partitions.size := by
  rw [List.count_eq_zero]
  constructor
  · intro new
    by_contra round
    -- The partition was met a whole round before.
    refine new (List.mem_map.mpr ⟨visits - store.partitions.size, ?_, ?_⟩)
    · exact List.mem_range.mpr (by omega)
    · rw [← Nat.add_mod_right]
      congr 1
      omega
  · intro first member
    obtain ⟨turn, before, same⟩ := List.mem_map.mp member
    have before := List.mem_range.mp before
    exact absurd (turn_unique (by omega) first same) (Nat.ne_of_lt before)

theorem count_met (store : PartitionStore) (start visits turn : Nat) :
    (store.met start visits).count ((start + turn) % store.partitions.size) =
      visits.count (· ≡ turn [MOD store.partitions.size]) := by
  rw [met, List.count, List.countP_map, Nat.count]
  apply List.countP_congr
  intro visit _
  simp only [Function.comp_apply, beq_iff_eq, decide_eq_true_eq]
  exact ⟨Nat.ModEq.add_left_cancel' start, Nat.ModEq.add_left start⟩

/-- In each full round a partition is met once, and once more if the last round gets to it. -/
theorem count_met_succ {turn : Nat} (inside : turn < store.partitions.size) :
    (store.met start (visits + 1)).count ((start + turn) % store.partitions.size) =
      visits / store.partitions.size + if turn ≤ visits % store.partitions.size then 1 else 0 := by
  rw [count_met, Nat.count_succ, Nat.count_modEq_card _ (by omega)]
  simp only [Nat.ModEq, Nat.mod_eq_of_lt inside]
  split_ifs <;> omega

/-- A deal after so many visits from a cursor on. -/
structure Deal.After (deal : Deal) (store : PartitionStore) (start visits : Nat) : Prop where
  size_eq : deal.left.size = store.partitions.size
  cursor_eq : deal.cursor = (start + visits) % store.partitions.size
  left_eq : ∀ partition, deal.left.getD partition 0 =
    store.remaining partition - (store.met start visits).count partition
  givers_eq : deal.givers.reverse =
    (store.met start (min visits store.partitions.size)).filter fun partition =>
      0 < store.remaining partition

section

variable {deal : Deal}

theorem undealt_after (inside : store.pointCursor < store.partitions.size) :
    store.undealt.After store store.pointCursor 0 where
  size_eq := Array.size_map
  cursor_eq := (Nat.mod_eq_of_lt inside).symm
  left_eq := left_undealt store
  givers_eq := by simp [undealt, met]

/-- Only a first visit meets all that a partition has. -/
theorem Deal.After.untouched_iff (after : deal.After store start visits)
    (has : 0 < store.remaining deal.cursor) :
    deal.left.getD deal.cursor 0 = store.remaining deal.cursor ↔
      visits < store.partitions.size := by
  have some : 0 < store.partitions.size := by
    have := lt_size_of_remaining has
    omega
  rw [← count_met_self some start, ← after.cursor_eq, after.left_eq]
  omega

/-- A visit takes an entry where there is one, and goes on to the next partition. -/
theorem Deal.After.visit {next : Deal} (after : deal.After store start visits)
    (size_eq : next.left.size = deal.left.size)
    (cursor_eq : next.cursor = (deal.cursor + 1) % store.partitions.size)
    (left_eq : ∀ partition, next.left.getD partition 0 =
      deal.left.getD partition 0 - if partition = deal.cursor then 1 else 0)
    (givers_eq : next.givers =
      if 0 < store.remaining deal.cursor ∧ visits < store.partitions.size
      then deal.cursor :: deal.givers else deal.givers) :
    next.After store start (visits + 1) where
  size_eq := size_eq.trans after.size_eq
  cursor_eq := by rw [cursor_eq, after.cursor_eq, Nat.mod_add_mod, Nat.add_assoc]
  left_eq := by
    intro partition
    rw [left_eq, after.left_eq, met_concat, List.count_append, List.count_singleton,
      after.cursor_eq, Nat.sub_sub]
    simp only [beq_iff_eq, eq_comm (a := partition)]
  givers_eq := by
    rw [givers_eq]
    by_cases first : visits < store.partitions.size
    · have now : min visits store.partitions.size = visits := by omega
      have then' : min (visits + 1) store.partitions.size = visits + 1 := by omega
      have before := after.givers_eq
      rw [now] at before
      rw [then', met_concat, List.filter_append, ← before, ← after.cursor_eq]
      by_cases has : 0 < store.remaining deal.cursor
      · simp [has, first]
      · simp [has]
    · have same : min (visits + 1) store.partitions.size =
          min visits store.partitions.size := by omega
      rw [if_neg (by omega), same, after.givers_eq]

theorem Deal.After.skip (after : deal.After store start visits)
    (empty : deal.left.getD deal.cursor 0 = 0) :
    Deal.After { deal with cursor := (deal.cursor + 1) % deal.left.size } store start
      (visits + 1) := by
  refine after.visit rfl (by rw [after.size_eq]) ?_ ?_
  · intro partition
    by_cases same : partition = deal.cursor
    · simp [same, empty]
    · simp [same]
  · have later (has : 0 < store.remaining deal.cursor) : ¬visits < store.partitions.size := by
      rw [← after.untouched_iff has, empty]
      omega
    rw [if_neg fun both => later both.1 both.2]

theorem Deal.After.give (after : deal.After store start visits)
    (has : deal.left.getD deal.cursor 0 ≠ 0) :
    (deal.give store deal.cursor).After store start (visits + 1) := by
  have some : 0 < store.remaining deal.cursor := by
    have := after.left_eq deal.cursor
    omega
  refine after.visit (by simp [Deal.give]) ?_ ?_ ?_
  · simp [Deal.give, after.size_eq]
  · intro partition
    rw [Deal.getD_give]
  · simp only [Deal.givers_give, after.untouched_iff some, some, true_and]

/-- Looking for the next giver is visiting partitions that have nothing left. -/
theorem Deal.After.search {turns giver : Nat} (after : deal.After store start visits)
    (inside : deal.cursor < store.partitions.size)
    (found : nextGiver deal.left turns deal.cursor = .ok giver) :
    ∃ later, visits ≤ later ∧ Deal.After { deal with cursor := giver } store start later ∧
      deal.left.getD giver 0 ≠ 0 := by
  induction turns generalizing deal visits with
  | zero => cases found
  | succ turns ih =>
      rw [nextGiver_succ (after.size_eq ▸ inside)] at found
      by_cases empty : deal.left.getD deal.cursor 0 = 0
      · rw [if_pos empty] at found
        obtain ⟨later, le, there, has⟩ := ih (after.skip empty)
          (by rw [← after.size_eq]; exact Nat.mod_lt _ (by rw [after.size_eq]; omega)) found
        exact ⟨later, by omega, there, has⟩
      · rw [if_neg empty, Except.ok.injEq] at found
        exact ⟨visits, Nat.le_refl _, found ▸ after, found ▸ empty⟩

theorem Deal.After.run {entries : Nat} {dealt : Deal} (after : deal.After store start visits)
    (some : 0 < store.partitions.size)
    (ran : Deal.run store entries deal = .ok dealt) :
    ∃ later, visits + entries ≤ later ∧ dealt.After store start later := by
  induction entries generalizing deal visits with
  | zero =>
      cases ran
      exact ⟨visits, Nat.le_refl _, after⟩
  | succ entries ih =>
      obtain ⟨giver, found, rest⟩ := Except.exists_of_bind ran
      have inside : deal.cursor < store.partitions.size :=
        after.cursor_eq ▸ Nat.mod_lt _ some
      obtain ⟨between, le, there, has⟩ := after.search inside found
      obtain ⟨later, more, ended⟩ := ih (there.give has) rest
      exact ⟨later, by omega, ended⟩

end

/-! What is dealt -/

theorem Deal.After.entriesIn_located {deal : Deal} (after : deal.After store start visits)
    (valid : deal.Valid store) (partition : Nat) :
    entriesIn (deal.located store) partition =
      min (store.remaining partition) ((store.met start visits).count partition) := by
  rw [valid.entriesIn_located, after.left_eq]
  omega

theorem Deal.After.located_sublist {deal : Deal} (after : deal.After store start visits) :
    ((deal.located store).map Located.partition).Sublist
      (store.met start store.partitions.size) := by
  have partitions : (deal.located store).map Located.partition = deal.givers.reverse := by
    simp [Deal.located, Function.comp_def]
  rw [partitions, after.givers_eq]
  refine List.filter_sublist.trans ?_
  rw [met, met, ← List.take_range]
  exact (List.take_sublist _ _).map _

/-- Point lookups that there are enough entries for make some visits from the cursor on. -/
theorem locate_after (inside : store.pointCursor < store.partitions.size) {entries : Nat}
    (positive : 0 < entries) (enough : entries ≤ store.entries) :
    ∃ (deal : Deal) (visits : Nat), deal.After store store.pointCursor (visits + 1) ∧
      deal.Valid store ∧ store.locate .point entries =
        .ok (deal.located store, store.moved deal.cursor .point) := by
  obtain ⟨deal, ran, valid, _, found⟩ := locate_deals inside positive enough
  obtain ⟨visits, some, after⟩ := (undealt_after inside).run (by omega) ran
  obtain ⟨visits, rfl⟩ := Nat.exists_eq_succ_of_ne_zero (show visits ≠ 0 by omega)
  exact ⟨deal, visits, after, valid, found⟩

/-- Whether a partition is met on the way from one cursor to another one, which is all the way
round if the cursors are the same. -/
def Between (start stop partition : Nat) : Prop :=
  if start < stop then start ≤ partition ∧ partition < stop
  else start ≤ partition ∨ partition < stop

theorem mod_of_lt_twice {position size : Nat} (few : position < size + size) :
    position % size = if position < size then position else position - size := by
  split
  · exact Nat.mod_eq_of_lt ‹_›
  · rw [Nat.mod_eq_sub_mod (by omega), Nat.mod_eq_of_lt (by omega)]

theorem between_turn {size turn last : Nat} (inside : start < size) (turnInside : turn < size)
    (lastInside : last < size) :
    Between start ((start + (last + 1)) % size) ((start + turn) % size) ↔ turn ≤ last := by
  rw [mod_of_lt_twice (by omega), mod_of_lt_twice (by omega), Between]
  split_ifs <;> omega

/-- The partitions up to the last visit are one visit ahead of the others. -/
theorem Deal.After.entriesIn_located_of_between {deal : Deal} {partition : Nat}
    (after : deal.After store start (visits + 1)) (valid : deal.Valid store)
    (inside : start < store.partitions.size) (within : partition < store.partitions.size) :
    (Between start deal.cursor partition → entriesIn (deal.located store) partition =
      min (store.remaining partition) (visits / store.partitions.size + 1)) ∧
    (¬Between start deal.cursor partition → entriesIn (deal.located store) partition =
      min (store.remaining partition) (visits / store.partitions.size)) := by
  obtain ⟨turn, turnInside, rfl⟩ := exists_turn inside within
  have final : deal.cursor =
      (start + (visits % store.partitions.size + 1)) % store.partitions.size := by
    rw [after.cursor_eq, ← Nat.add_assoc, ← Nat.add_assoc, Nat.add_right_comm,
      Nat.add_right_comm _ _ 1, Nat.add_mod_mod]
  have met := between_turn inside turnInside (Nat.mod_lt visits (by omega))
  rw [← final] at met
  rw [met, after.entriesIn_located valid, count_met_succ turnInside]
  constructor
  · intro before
    rw [if_pos before]
  · intro beyond
    rw [if_neg beyond, Nat.add_zero]

/-- What has entries left has given one in each visit. -/
theorem Deal.After.even {deal : Deal} {partition : Nat}
    (after : deal.After store start (visits + 1)) (valid : deal.Valid store)
    (inside : start < store.partitions.size)
    (has : entriesIn (deal.located store) partition < store.remaining partition) :
    visits / store.partitions.size ≤ entriesIn (deal.located store) partition ∧
      entriesIn (deal.located store) partition ≤ visits / store.partitions.size + 1 := by
  have given := after.entriesIn_located_of_between valid inside
    (lt_size_of_remaining (Nat.zero_lt_of_lt has))
  by_cases met : Between start deal.cursor partition
  · have := given.1 met
    omega
  · have := given.2 met
    omega

end PartitionStore

open PartitionStore

namespace ColdTier

variable {τ : Type} [Scalar τ] {tier : ColdTier τ}

/-- Point lookups are fair. Each partition that comes before the last visit gives one entry more
than the others, as far as it has them. -/
theorem locate_fair (reachable : tier.Reachable) {entries : Nat} (positive : 0 < entries)
    (enough : entries ≤ tier.entries) :
    ∃ located after round, tier.base.locate .point entries = .ok (located, after) ∧
      (∀ partition < tier.base.partitions.size,
        (Between tier.base.pointCursor after.pointCursor partition →
          entriesIn located partition = min (tier.base.remaining partition) (round + 1)) ∧
        (¬Between tier.base.pointCursor after.pointCursor partition →
          entriesIn located partition = min (tier.base.remaining partition) round)) ∧
      (∀ first second, entriesIn located first < tier.base.remaining first →
        entriesIn located second < tier.base.remaining second →
        entriesIn located first ≤ entriesIn located second + 1) ∧
      (located.map Located.partition).Sublist
        (tier.base.met tier.base.pointCursor tier.base.partitions.size) := by
  have some := size_pos_of_entries (Nat.lt_of_lt_of_le positive enough)
  have inside := reachable.valid.base.pointCursor_lt some
  obtain ⟨deal, visits, dealt, valid, found⟩ := locate_after inside positive enough
  refine ⟨deal.located tier.base, tier.base.moved deal.cursor .point,
    visits / tier.base.partitions.size, found, ?_, ?_, dealt.located_sublist⟩
  · intro partition within
    exact dealt.entriesIn_located_of_between valid inside within
  · intro first second firstHas secondHas
    have firstEven := dealt.even valid inside firstHas
    have secondEven := dealt.even valid inside secondHas
    omega

theorem locate_fair_of_uneven :
    (ColdTier.plain uneven : ColdTier Rat).Reachable ∧ 5 ≤ uneven.entries ∧
      ∃ located after round, uneven.locate .point 5 = .ok (located, after) ∧
        located = [⟨3, 2⟩, ⟨0, 2⟩, ⟨2, 1⟩] ∧ after.pointCursor = 1 ∧
        (∀ partition < 4,
          (Between 3 1 partition →
            entriesIn located partition = min (uneven.remaining partition) (round + 1)) ∧
          (¬Between 3 1 partition →
            entriesIn located partition = min (uneven.remaining partition) round)) ∧
        (located.map Located.partition).Sublist (uneven.met 3 4) := by
  have enough : 5 ≤ uneven.entries := by decide
  have ran : uneven.locate .point 5 =
      .ok ([⟨3, 2⟩, ⟨0, 2⟩, ⟨2, 1⟩], { uneven with pointCursor := 1 }) := by cbv
  obtain ⟨located, after, round, found, given, _, order⟩ :=
    locate_fair uneven_reachable (by decide) enough
  obtain ⟨rfl, rfl⟩ : _ = located ∧ _ = after := by simpa using ran.symm.trans found
  exact ⟨uneven_reachable, enough, _, _, round, ran, rfl, rfl, given, order⟩

end ColdTier

end MergeCost
