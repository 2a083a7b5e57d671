import MergeCost.Proofs.Cold.Touch

/-!
Requests to the cold side, whichever way its partitions are kept. A request can be located and
touched on every valid tier, and what it leaves of the partitions is decided by the partitions
alone.
-/

namespace MergeCost

open Sim

variable {τ : Type}

namespace ColdTier

/-- A tier that its construction and its requests can lead to. -/
def Valid : ColdTier τ → Prop
  | plain store => store.Sound
  | grouped store => store.Represented

variable {tier : ColdTier τ}

theorem Valid.base (valid : tier.Valid) : tier.base.Sound := by
  cases tier with
  | plain store => exact valid
  | grouped store => exact valid.base

@[simp] theorem base_withBase (base : PartitionStore) (tier : ColdTier τ) :
    (withBase base tier).base = base := by
  cases tier <;> rfl

theorem Valid.withCursors (valid : tier.Valid) {point range : Nat}
    (sound : (tier.base.withCursors point range).Sound) :
    (withBase (tier.base.withCursors point range) tier).Valid := by
  cases tier with
  | plain store => exact sound
  | grouped store =>
      have layout := valid.layout
      refine ⟨sound, ⟨layout.once, layout.inside, layout.listed, layout.nonempty, layout.ordered⟩,
        valid.holder_eq, ?_, valid.stale_eq, valid.room⟩
      intro block member
      have accounted := valid.accounted block member
      exact ⟨accounted.capacity_eq, accounted.valid_eq, accounted.stale_dvd, accounted.within⟩

theorem outcome_locate {lookup : Lookup} {entries : Nat} {located : List Located}
    {base : PartitionStore} (found : tier.base.locate lookup entries = .ok (located, base))
    (machine : Machine τ) :
    outcome (locate lookup entries) ⟨tier, machine⟩ =
      .ok (.ok located, ⟨withBase base tier, machine⟩) := by
  simp only [locate, outcome_bind, outcome_store, after_ok, found, outcome_orCrash_ok,
    outcome_update, outcome_pure]

theorem locate_exists (valid : tier.Valid) (lookup : Lookup) (entries : Nat)
    (machine : Machine τ) :
    ∃ located base, tier.base.locate lookup entries = .ok (located, base) ∧
      outcome (locate lookup entries) ⟨tier, machine⟩ =
        .ok (.ok located, ⟨withBase base tier, machine⟩) ∧
      (withBase base tier).Valid ∧ base.Allots located ∧ base.entries = tier.entries ∧
      (located.map Located.entries).sum = min entries tier.entries := by
  obtain ⟨located, point, range, found, sound, allots, sum⟩ :=
    PartitionStore.locate_exists valid.base lookup entries
  exact ⟨located, _, found, outcome_locate found machine, valid.withCursors sound,
    ⟨allots.distinct, allots.available⟩, rfl, sum⟩

variable [Scalar τ] {located : List Located} {machine after : Machine τ} {cost : TouchCost τ}

theorem outcome_touch_plain {store left : PartitionStore}
    (ran : outcome (PartitionStore.touch located) ⟨store, machine⟩ =
      .ok (.ok cost, ⟨left, after⟩)) :
    outcome (touch located) ⟨.plain store, machine⟩ = .ok (.ok cost, ⟨.plain left, after⟩) := by
  simp only [touch, outcome_bind, outcome_store, after_ok, outcome_zoom, ran]
  rfl

theorem outcome_touch_grouped {store left : GroupedStore τ}
    (ran : outcome (GroupedStore.touch located) ⟨store, machine⟩ = .ok (.ok cost, ⟨left, after⟩)) :
    outcome (touch located) ⟨.grouped store, machine⟩ = .ok (.ok cost, ⟨.grouped left, after⟩) := by
  simp only [touch, outcome_bind, outcome_store, after_ok, outcome_zoom, ran]
  rfl

theorem touch_exists (valid : tier.Valid) {located : List Located}
    (inside : tier.base.InRange located) (machine : Machine τ) :
    ∃ cost tier' after, outcome (touch located) ⟨tier, machine⟩ =
        .ok (.ok cost, ⟨tier', after⟩) ∧
      tier'.Valid ∧ tier'.base = tier.base.drainAll located ∧
      cost.entries + tier'.entries = tier.entries ∧
      cost.loadings = if located.isEmpty then 0 else 1 := by
  cases tier with
  | plain store =>
      have inside : store.InRange located := inside
      obtain ⟨cost, after, ran, entries, loadings⟩ := PartitionStore.touch_exists inside machine
      exact ⟨cost, .plain (store.drainAll located), after, outcome_touch_plain ran,
        valid.drainAll located, rfl, entries, loadings⟩
  | grouped store =>
      obtain ⟨cost, touched, after, ran, represented, base, entries, loadings⟩ :=
        GroupedStore.touch_exists valid inside machine
      exact ⟨cost, .grouped touched, after, outcome_touch_grouped ran, represented, base, entries,
        loadings⟩

end ColdTier

end MergeCost
