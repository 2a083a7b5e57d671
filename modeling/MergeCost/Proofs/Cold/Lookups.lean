import Mathlib
import MergeCost.Proofs.Cold.Reachable

/-!
Lookups on a tier that requests have led to. Whatever has left the partitions before, a lookup comes
to an end and locates exactly what it can, and a range is one run of neighbouring partitions.
-/

namespace MergeCost

open Sim PartitionStore

variable {τ : Type} [Scalar τ]

/-- Four partitions of which one is empty, after lookups of both kinds. -/
def PartitionStore.uneven : PartitionStore :=
  ⟨1, 3, #[⟨3, 3⟩, ⟨3, 0⟩, ⟨3, 2⟩, ⟨2, 2⟩], .blockRewrite, 3, 3⟩

namespace ColdTier

theorem Reachable.drained {store : PartitionStore} {located : List Located}
    (reachable : (ColdTier.plain store : ColdTier τ).Reachable) (inside : store.InRange located)
    (machine : Machine τ) :
    (ColdTier.plain (store.drainAll located) : ColdTier τ).Reachable := by
  obtain ⟨cost, after, ran, _⟩ := PartitionStore.touch_exists inside machine
  exact .touch reachable inside (outcome_touch_plain ran)

theorem Reachable.sought {store after : PartitionStore} {lookup : Lookup} {entries : Nat}
    {located : List Located} (reachable : (ColdTier.plain store : ColdTier τ).Reachable)
    (found : store.locate lookup entries = .ok (located, after)) (machine : Machine τ) :
    (ColdTier.plain after : ColdTier τ).Reachable := by
  have found : (ColdTier.plain store : ColdTier τ).base.locate lookup entries =
    .ok (located, after) := found
  exact .locate reachable (outcome_locate found machine)

theorem uneven_reachable : (ColdTier.plain uneven : ColdTier Rat).Reachable := by
  let machine : Machine Rat := .create (.create (.pcm ⟨⟨"PCM", 64, 1, 2⟩, 0⟩))
  let fresh : PartitionStore :=
    ⟨1, 3, #[⟨3, 3⟩, ⟨3, 3⟩, ⟨3, 3⟩, ⟨2, 2⟩], .blockRewrite, 0, 0⟩
  let worn : PartitionStore := { uneven with pointCursor := 0, rangeCursor := 0 }
  let ranged : PartitionStore := { uneven with pointCursor := 0 }
  have laidOut : (PartitionStore.create 11 1 3 .blockRewrite :
    Except (Error Rat) PartitionStore) = .ok fresh := rfl
  have touched : fresh.drainAll [⟨1, 3⟩, ⟨2, 1⟩] = worn := by cbv
  have first : worn.locate .range 5 = .ok ([⟨0, 3⟩, ⟨2, 2⟩], ranged) := by cbv
  have second : ranged.locate .point 2 = .ok ([⟨0, 1⟩, ⟨2, 1⟩], uneven) := by cbv
  have inside : fresh.InRange [⟨1, 3⟩, ⟨2, 1⟩] := by simp [InRange, fresh]
  have left : (ColdTier.plain worn : ColdTier Rat).Reachable :=
    touched ▸ Reachable.drained (.create laidOut) inside machine
  exact (left.sought first machine).sought second machine

/-- A lookup ends. It looks for no partition that does not exist, so it goes round no empty store
either. It locates as many entries as are asked for and there, in different partitions that have
them, and moves nothing but the cursor of its kind. -/
theorem locate_exact {tier : ColdTier τ} (reachable : tier.Reachable) (lookup : Lookup)
    (entries : Nat) :
    ∃ located cursor,
      tier.base.locate lookup entries = .ok (located, tier.base.moved cursor lookup) ∧
      (located.map Located.partition).Nodup ∧
      (∀ part ∈ located, part.partition < tier.base.partitions.size ∧ 1 ≤ part.entries ∧
        part.entries ≤ tier.base.remaining part.partition) ∧
      (located.map Located.entries).sum = min entries tier.base.entries := by
  obtain ⟨located, cursor, found, _, allots, sum⟩ :=
    locate_moves reachable.valid.base lookup entries
  refine ⟨located, cursor, found, allots.distinct, ?_, sum⟩
  intro part member
  exact ⟨allots.inRange part member, allots.available part member⟩

theorem locate_exact_of_uneven :
    (ColdTier.plain uneven : ColdTier Rat).Reachable ∧ ∃ located cursor,
      uneven.locate .point 9 = .ok (located, uneven.moved cursor .point) ∧
      (located.map Located.partition).Nodup ∧
      (∀ part ∈ located, part.partition < 4 ∧ 1 ≤ part.entries ∧
        part.entries ≤ uneven.remaining part.partition) ∧
      (located.map Located.entries).sum = 7 :=
  ⟨uneven_reachable, locate_exact uneven_reachable .point 9⟩

/-- A range is located in the partitions with entries that follow its cursor, up to the last one
that it needs. Of those before the last one it has all entries. The cursor stays on the last one if
that has more, and goes on if not. -/
theorem locate_contiguous {tier : ColdTier τ} (reachable : tier.Reachable) (entries : Nat) :
    ∃ located after, tier.base.locate .range entries = .ok (located, after) ∧
      (located = [] ↔ min entries tier.base.entries = 0) ∧
      ∀ last ∈ located.getLast?,
        (∃ turn < tier.base.partitions.size,
          last.partition = (tier.base.rangeCursor + turn) % tier.base.partitions.size ∧
          located.map Located.partition =
            (tier.base.met tier.base.rangeCursor (turn + 1)).filter fun partition =>
              0 < tier.base.remaining partition) ∧
        (∀ part ∈ located.dropLast, part.entries = tier.base.remaining part.partition) ∧
        after.rangeCursor =
          if last.entries < tier.base.remaining last.partition then last.partition
          else (last.partition + 1) % tier.base.partitions.size := by
  rcases Nat.eq_zero_or_pos (min entries tier.base.entries) with nothing | positive
  · exact ⟨[], tier.base, locate_nothing nothing _, by simp [nothing], by simp⟩
  · rw [← locate_min]
    have enough := Nat.min_le_right entries tier.base.entries
    have inside := reachable.valid.base.rangeCursor_lt (size_pos_of_entries (by omega))
    obtain ⟨turns, part, covers, found⟩ := locate_covers inside positive enough
    obtain ⟨turn, before, last, some, within, shape, cursor⟩ := covers.exists_last positive
    refine ⟨_, _, found, ?_, ?_⟩
    · simp [shape, Nat.ne_of_gt positive]
    · rw [shape]
      intro final member
      rw [List.getLast?_concat, Option.mem_some_iff] at member
      subst member
      refine ⟨⟨turn, before, rfl, ?_⟩, ?_, cursor⟩
      · have has : 0 < tier.base.remaining
            ((tier.base.rangeCursor + turn) % tier.base.partitions.size) := by omega
        simp [partitions_wholes, met_concat, has]
      · rw [List.dropLast_concat]
        intro whole listed
        obtain ⟨partition, _, rfl⟩ := List.mem_map.mp listed
        rfl

theorem locate_contiguous_of_uneven :
    (ColdTier.plain uneven : ColdTier Rat).Reachable ∧ ∃ after,
      uneven.locate .range 6 = .ok ([⟨3, 2⟩, ⟨0, 3⟩, ⟨2, 1⟩], after) ∧
      (∃ turn < 4, 2 = (3 + turn) % 4 ∧
        [3, 0, 2] = (uneven.met 3 (turn + 1)).filter fun partition =>
          0 < uneven.remaining partition) ∧
      (∀ part ∈ ([⟨3, 2⟩, ⟨0, 3⟩] : List Located),
        part.entries = uneven.remaining part.partition) ∧
      after.rangeCursor = 2 := by
  have ran : uneven.locate .range 6 =
      .ok ([⟨3, 2⟩, ⟨0, 3⟩, ⟨2, 1⟩], { uneven with rangeCursor := 2 }) := by cbv
  obtain ⟨located, after, found, _, run⟩ := locate_contiguous uneven_reachable 6
  obtain ⟨rfl, rfl⟩ : _ = located ∧ _ = after := by simpa using ran.symm.trans found
  obtain ⟨met, whole, cursor⟩ := run ⟨2, 1⟩ rfl
  exact ⟨uneven_reachable, _, ran, met, whole, cursor⟩

end ColdTier

end MergeCost
