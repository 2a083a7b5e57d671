import MergeCost.Proofs.Cold.Tier
import MergeCost.Proofs.Index.Conserves
import MergeCost.Proofs.Index.Routing

/-!
Requests to both sides of adaptive merging. Each one ends well, leaves as many entries as there
should be, and changes the routing just as the routing would by itself.
-/

namespace MergeCost

open Sim

theorem OperationLedger.operations_record {τ : Type} [Scalar τ] (ledger : OperationLedger τ)
    (operation other : Operation) (time : τ) (operations : Nat) :
    ((ledger.record operation time operations).tally other).operations =
      (ledger.tally other).operations + if operation = other then operations else 0 := by
  rw [OperationLedger.record, tally_modify]
  by_cases same : operation = other
  · subst same
    simp [Tally.record]
  · simp [same, Ne.symm same]

namespace Merging

variable {τ σ : Type} [EntryStore τ σ] {merging : Merging τ σ} {Valid : σ → Prop}

def routing (merging : Merging τ σ) : Routing τ where
  partitions := merging.cold.base.partitions
  pointCursor := merging.cold.base.pointCursor
  rangeCursor := merging.cold.base.rangeCursor
  carry := merging.carry
  hot := EntryStore.entries merging.wrapped
  requests := fun request => (merging.ledger.tally (.request request)).operations
  loadings := (merging.ledger.tally .loading).operations

theorem base_routing (merging : Merging τ σ) : merging.routing.base = merging.cold.base.bare := rfl

theorem touch_nothing (merging : Merging τ σ) (lookup : Lookup) :
    merging.routing.touch lookup 0 = .ok (0, merging.routing) := by
  have none : merging.routing.base.locate lookup 0 = .ok ([], merging.routing.base) := by
    simp [PartitionStore.locate]
  simp only [Routing.touch, none, Except.map, PartitionStore.drainAll_nil, Routing.cold,
    Nat.sub_self]
  rfl

structure Sides (Valid : σ → Prop) (merging : Merging τ σ) : Prop where
  cold : merging.cold.Valid
  wrapped : Valid merging.wrapped

/-- What holds between requests: both sides can take them, and have the expected entries. -/
structure Settled (Valid : σ → Prop) (merging : Merging τ σ) : Prop extends
    Sides Valid merging where
  expected : merging.expectedEntries = merging.entries

variable [Scalar τ]

theorem routing_record (merging : Merging τ σ) (request : Request) (time : τ) :
    { merging with ledger := merging.ledger.record (.request request) time 1 }.routing =
      merging.routing.count request := by
  simp [routing, Routing.count, OperationLedger.operations_record]

/-! Touches -/

/-- The ledger after a touch: only what has been located is charged. -/
def charged (ledger : OperationLedger τ) (located : List Located) (cost : TouchCost τ) :
    OperationLedger τ :=
  if located.isEmpty then ledger
  else (ledger.record .invalidation cost.invalidationTime cost.invalidations).record .loading
    cost.loadingTime cost.loadings

theorem requests_charged (ledger : OperationLedger τ) (located : List Located)
    (cost : TouchCost τ) (request : Request) :
    ((charged ledger located cost).tally (.request request)).operations =
      (ledger.tally (.request request)).operations := by
  cases nothing : located.isEmpty <;> simp [charged, nothing, OperationLedger.operations_record]

theorem loadings_charged (ledger : OperationLedger τ) {located : List Located}
    {cost : TouchCost τ} (loadings : cost.loadings = if located.isEmpty then 0 else 1) :
    ((charged ledger located cost).tally .loading).operations =
      (ledger.tally .loading).operations + if located.isEmpty then 0 else 1 := by
  cases nothing : located.isEmpty <;>
    simp [charged, nothing, OperationLedger.operations_record, loadings]

omit [EntryStore τ σ] in
theorem outcome_touchCold {lookup : Lookup} {entries : Nat} {machine after : Machine τ}
    {located : List Located} {cost : TouchCost τ} {moved cold : ColdTier τ}
    (found : outcome (ColdTier.locate lookup entries) ⟨merging.cold, machine⟩ =
      .ok (.ok located, ⟨moved, machine⟩))
    (touched : outcome (ColdTier.touch located) ⟨moved, machine⟩ =
      .ok (.ok cost, ⟨cold, after⟩)) :
    outcome (touchCold lookup entries) ⟨merging, machine⟩ = .ok (.ok cost,
      ⟨{ merging with cold, ledger := charged merging.ledger located cost }, after⟩) := by
  simp only [touchCold, onCold, outcome_bind, outcome_zoom, found, Except.map, after_ok, touched]
  cases nothing : located.isEmpty with
  | true =>
      simp only [nothing, Bool.not_true, Bool.false_eq_true, if_false, outcome_pure, charged,
        if_true]
  | false =>
      simp only [nothing, Bool.not_false, if_true, record, outcome_bind, outcome_update, after_ok,
        outcome_pure, charged, Bool.false_eq_true, if_false]

theorem routing_touchCold {lookup : Lookup} {entries : Nat} {located : List Located}
    {base : PartitionStore} {cost : TouchCost τ} {cold : ColdTier τ}
    (found : merging.cold.base.locate lookup entries = .ok (located, base))
    (drained : cold.base = base.drainAll located)
    (loadings : cost.loadings = if located.isEmpty then 0 else 1) :
    merging.routing.touch lookup entries = .ok (merging.cold.entries - cold.entries,
      { merging with cold, ledger := charged merging.ledger located cost }.routing) := by
  have bare : merging.routing.base.locate lookup entries = .ok (located, base.bare) := by
    rw [base_routing, PartitionStore.locate_bare, found]
    rfl
  have left : base.bare.drainAll located = cold.base.bare := by
    rw [drained, PartitionStore.bare_drainAll]
  simp only [Routing.touch, bare, Except.map, left]
  simp only [routing, requests_charged, loadings_charged merging.ledger loadings]
  rfl

/-- A touch takes out as many entries as there are, and the routing knows which. -/
theorem touchCold_exists (valid : merging.cold.Valid) (lookup : Lookup) (entries : Nat)
    (machine : Machine τ) :
    ∃ cost cold ledger machine', outcome (touchCold lookup entries) ⟨merging, machine⟩ =
        .ok (.ok cost, ⟨{ merging with cold, ledger }, machine'⟩) ∧
      cold.Valid ∧ cost.entries = min entries merging.cold.entries ∧
      cold.entries = merging.cold.entries - entries ∧
      merging.routing.touch lookup entries =
        .ok (cost.entries, { merging with cold, ledger }.routing) := by
  obtain ⟨located, base, found, ran, moved, allots, same, sum⟩ :=
    ColdTier.locate_exists valid lookup entries machine
  have inside : (ColdTier.withBase base merging.cold).base.InRange located := by
    rw [ColdTier.base_withBase]
    exact allots.inRange
  obtain ⟨cost, cold, after, touched, coldValid, drained, left, loadings⟩ :=
    ColdTier.touch_exists moved inside machine
  rw [ColdTier.base_withBase] at drained
  have all := allots.entries_drainAll
  have entriesAfter : cold.entries = (base.drainAll located).entries := by
    rw [ColdTier.entries, drained]
  have entriesBefore : (ColdTier.withBase base merging.cold).entries = merging.cold.entries := by
    rw [ColdTier.entries, ColdTier.base_withBase, same]
  have routed := routing_touchCold found drained loadings
  rw [show merging.cold.entries - cold.entries = cost.entries by omega] at routed
  exact ⟨cost, cold, _, after, outcome_touchCold ran touched, coldValid, by omega, by omega, routed⟩

/-! Requests -/

/-- A request whose entries add up is recorded and ends well. -/
theorem close_exists (sides : merging.Sides Valid)
    (expected : merging.expectedEntries = merging.entries) (request : Request) (time : τ)
    (machine : Machine τ) :
    ∃ after, outcome (do
        record (.request request) time 1
        checkEntries
        return time : Sim τ (Merging τ σ) τ) ⟨merging, machine⟩ =
        .ok (.ok time, ⟨after, machine⟩) ∧
      after.Settled Valid ∧ after.entries = merging.entries ∧
      after.routing = merging.routing.count request := by
  let recorded : Merging τ σ :=
    { merging with ledger := merging.ledger.record (.request request) time 1 }
  have balanced : recorded.entries = merging.expectedEntries := expected.symm
  refine ⟨recorded, ?_, ⟨⟨sides.cold, sides.wrapped⟩, expected⟩, rfl, routing_record ..⟩
  simp only [recorded] at balanced
  simp only [record, checkEntries, outcome_bind, outcome_update, after_ok, outcome_store, balanced,
    ne_eq, not_true_eq_false, if_false, outcome_pure, recorded]

theorem outcome_split {entries : Nat} {parts : Split τ}
    (found : Split.of entries merging.cold.entries (EntryStore.entries merging.wrapped)
      merging.carry = .ok parts) (machine : Machine τ) :
    outcome (split entries) ⟨merging, machine⟩ =
      .ok (.ok parts, ⟨{ merging with carry := parts.carry }, machine⟩) := by
  simp only [split, outcome_bind, outcome_store, after_ok, found, outcome_orCrash_ok,
    outcome_update, outcome_pure]

omit [EntryStore τ σ] [Scalar τ] in
theorem outcome_expectFewer {entries : Nat} (enough : entries ≤ merging.expectedEntries)
    (machine : Machine τ) :
    outcome (expectFewer entries) ⟨merging, machine⟩ = .ok (.ok (),
      ⟨{ merging with expectedEntries := merging.expectedEntries - entries }, machine⟩) := by
  simp only [expectFewer, outcome_bind, outcome_store, after_ok, if_neg (Nat.not_lt.mpr enough),
    outcome_update]

theorem insert_exists (conserves : EntryStore.Conserves Valid) (settled : merging.Settled Valid)
    (entries : Nat) (machine : Machine τ) :
    ∃ time after machine', outcome (insert entries) ⟨merging, machine⟩ =
        .ok (.ok time, ⟨after, machine'⟩) ∧
      after.Settled Valid ∧ after.entries = merging.entries + entries ∧
      after.routing = merging.routing.insert entries := by
  by_cases nothing : entries = 0
  · subst nothing
    exact ⟨Scalar.zero, merging, machine, rfl, settled, rfl, rfl⟩
  · obtain ⟨time, wrapped, between, inserted, valid, more⟩ :=
      conserves.insert settled.wrapped entries machine
    let grown : Merging τ σ :=
      { merging with wrapped, expectedEntries := merging.expectedEntries + entries }
    have entriesAfter : grown.entries = merging.entries + entries := by
      simp only [grown, Merging.entries, more]
      omega
    have expected : grown.expectedEntries = grown.entries := by
      rw [entriesAfter, ← settled.expected]
    have routed : grown.routing =
        { merging.routing with hot := merging.routing.hot + entries } := by
      simp only [routing, grown, more]
    have sides : grown.Sides Valid := ⟨settled.cold, valid⟩
    obtain ⟨after, closed, still, same, counted⟩ :=
      close_exists sides expected .insert time between
    refine ⟨time, after, between, ?_, still, same.trans entriesAfter, ?_⟩
    · simp only [insert, if_neg nothing, onWrapped, outcome_bind, outcome_zoom, inserted,
        Except.map, after_ok, outcome_update] at closed ⊢
      exact closed
    · rw [counted, Routing.insert, if_neg nothing, routed]

/-! Finds -/

theorem findWrapped_exists (conserves : EntryStore.Conserves Valid) (valid : Valid merging.wrapped)
    (lookup : Lookup) (entries repeats : Nat) (time : τ) (machine : Machine τ) :
    ∃ total wrapped machine', outcome (findWrapped lookup entries repeats time)
        ⟨merging, machine⟩ = .ok (.ok total, ⟨{ merging with wrapped }, machine'⟩) ∧
      Valid wrapped ∧ EntryStore.entries wrapped = EntryStore.entries merging.wrapped := by
  obtain ⟨taken, wrapped, after, found, stillValid, same⟩ :=
    conserves.find valid lookup entries repeats machine
  refine ⟨time + taken, wrapped, after, ?_, stillValid, same⟩
  simp only [findWrapped, onWrapped, outcome_bind, outcome_zoom, found, Except.map, after_ok,
    outcome_pure]

theorem migrate_exists (conserves : EntryStore.Conserves Valid) (sides : merging.Sides Valid)
    (lookup : Lookup) {entries : Nat} (enough : entries ≤ merging.cold.entries) (time : τ)
    (machine : Machine τ) :
    ∃ total cold wrapped ledger machine', outcome (migrate lookup entries time)
        ⟨merging, machine⟩ =
        .ok (.ok (entries, total), ⟨{ merging with cold, wrapped, ledger }, machine'⟩) ∧
      ({ merging with cold, wrapped, ledger } : Merging τ σ).Sides Valid ∧
      cold.entries + entries = merging.cold.entries ∧
      EntryStore.entries wrapped = EntryStore.entries merging.wrapped + entries ∧
      merging.routing.touch lookup entries =
        .ok (entries, { merging with cold, ledger }.routing) := by
  obtain ⟨cost, cold, ledger, between, touched, coldValid, moved, left, routed⟩ :=
    touchCold_exists sides.cold lookup entries machine
  rw [Nat.min_eq_left enough] at moved
  rw [moved] at routed
  obtain ⟨taken, wrapped, after, inserted, wrappedValid, more⟩ :=
    conserves.insert sides.wrapped entries between
  refine ⟨time + cost.time + taken, cold, wrapped, ledger, after, ?_, ⟨coldValid, wrappedValid⟩,
    by omega, more, routed⟩
  simp only [migrate, onWrapped, outcome_bind, touched, after_ok, moved, outcome_zoom, inserted,
    Except.map, outcome_pure]

theorem findHot_exists (conserves : EntryStore.Conserves Valid) (valid : Valid merging.wrapped)
    (lookup : Lookup) (entries repeats : Nat) (machine : Machine τ) :
    ∃ total wrapped machine', outcome (if entries = 0 then pure Scalar.zero
          else findWrapped lookup entries repeats Scalar.zero) ⟨merging, machine⟩ =
        .ok (.ok total, ⟨{ merging with wrapped }, machine'⟩) ∧
      Valid wrapped ∧ EntryStore.entries wrapped = EntryStore.entries merging.wrapped := by
  by_cases nothing : entries = 0
  · simp only [if_pos nothing]
    exact ⟨Scalar.zero, merging.wrapped, machine, rfl, valid, rfl⟩
  · simp only [if_neg nothing]
    exact findWrapped_exists conserves valid lookup entries repeats Scalar.zero machine

theorem findCold_exists (conserves : EntryStore.Conserves Valid) (sides : merging.Sides Valid)
    (lookup : Lookup) {entries : Nat} (enough : entries ≤ merging.cold.entries) (repeats : Nat)
    (time : τ) (machine : Machine τ) :
    ∃ total after machine' left, outcome
        (if entries = 0 then pure time else findCold lookup entries repeats time)
        ⟨merging, machine⟩ = .ok (.ok total, ⟨after, machine'⟩) ∧
      after.Sides Valid ∧ after.expectedEntries = merging.expectedEntries ∧
      after.entries = merging.entries ∧
      merging.routing.touch lookup entries = .ok (entries, left) ∧
      after.routing = { left with hot := left.hot + entries } := by
  by_cases nothing : entries = 0
  · subst nothing
    exact ⟨time, merging, machine, merging.routing, by simp only [if_true, outcome_pure], sides,
      rfl, rfl, merging.touch_nothing lookup, rfl⟩
  · obtain ⟨total, cold, wrapped, ledger, between, migrated, moved, fewer, more, routed⟩ :=
      migrate_exists conserves sides lookup enough time machine
    have same : cold.entries + EntryStore.entries wrapped = merging.entries := by
      rw [Merging.entries]
      omega
    by_cases again : 1 < repeats
    · obtain ⟨repeated, rewrapped, after, found, valid, kept⟩ :=
        findWrapped_exists conserves moved.wrapped lookup entries (repeats - 1) total between
      refine ⟨repeated, { merging with cold, wrapped := rewrapped, ledger }, after, _, ?_,
        ⟨moved.cold, valid⟩, rfl, ?_, routed, ?_⟩
      · simp only [if_neg nothing, findCold, outcome_bind, migrated, after_ok, if_pos again, found]
      · simp only [Merging.entries, kept]
        exact same
      · simp only [routing, kept, more]
    · refine ⟨total, { merging with cold, wrapped, ledger }, between, _, ?_, moved, rfl, same,
        routed, ?_⟩
      · simp only [if_neg nothing, findCold, outcome_bind, migrated, after_ok, if_neg again,
          outcome_pure]
      · simp only [routing, more]

theorem find_exists (conserves : EntryStore.Conserves Valid) (settled : merging.Settled Valid)
    (lookup : Lookup) (entries repeats : Nat) (machine : Machine τ) :
    ∃ time after machine', outcome (find lookup entries repeats) ⟨merging, machine⟩ =
        .ok (.ok time, ⟨after, machine'⟩) ∧
      after.Settled Valid ∧ after.entries = merging.entries ∧
      merging.routing.find lookup entries repeats = .ok after.routing := by
  by_cases nothing : min entries merging.entries = 0 ∨ repeats = 0
  · have nothingRouted : min entries merging.routing.entries = 0 ∨ repeats = 0 := nothing
    refine ⟨Scalar.zero, merging, machine, ?_, settled, rfl, ?_⟩
    · simp only [find, outcome_bind, outcome_store, after_ok, if_pos nothing, outcome_pure]
    · simp only [Routing.find, if_pos nothingRouted]
  · have somethingRouted : ¬(min entries merging.routing.entries = 0 ∨ repeats = 0) := nothing
    obtain ⟨parts, found, _, coldEnough, _⟩ :=
      Split.of_exists merging.carry (Nat.min_le_right entries merging.entries)
    let begun : Merging τ σ := { merging with carry := parts.carry }
    have begunValid : Valid begun.wrapped := settled.wrapped
    obtain ⟨time, wrapped, between, hotFound, valid, kept⟩ :=
      findHot_exists conserves begunValid lookup parts.hot repeats machine
    have sides : ({ begun with wrapped } : Merging τ σ).Sides Valid := ⟨settled.cold, valid⟩
    have routedHot : { begun with wrapped }.routing = begun.routing := by
      simp only [routing, kept, begun]
    obtain ⟨total, after, finish, left, coldFound, afterSides, expected, same, touched, routed⟩ :=
      findCold_exists conserves sides lookup coldEnough repeats time between
    rw [routedHot] at touched
    have whole : after.entries = merging.entries := by
      rw [same, Merging.entries, Merging.entries, kept]
    have balanced : after.expectedEntries = after.entries := by
      rw [expected, whole]
      exact settled.expected
    obtain ⟨closedAfter, closed, still, closedEntries, counted⟩ :=
      close_exists afterSides balanced lookup.request total finish
    refine ⟨total, closedAfter, finish, ?_, still, closedEntries.trans whole, ?_⟩
    · simp only [find, branches_bind]
      simp only [outcome_bind, outcome_store, after_ok, if_neg nothing, outcome_split found]
      simp only [begun] at hotFound coldFound
      simp only [hotFound, coldFound, after_ok, outcome_bind] at closed ⊢
      exact closed
    · rw [counted, routed]
      exact Routing.find_of_split somethingRouted found touched

/-! Deletes -/

theorem deleteWrapped_exists (conserves : EntryStore.Conserves Valid)
    (valid : Valid merging.wrapped) (entries : Nat) (time : τ) (machine : Machine τ) :
    ∃ total wrapped machine', outcome (deleteWrapped entries time) ⟨merging, machine⟩ =
        .ok (.ok total, ⟨{ merging with wrapped }, machine'⟩) ∧
      Valid wrapped ∧
      EntryStore.entries wrapped = EntryStore.entries merging.wrapped - entries := by
  obtain ⟨taken, wrapped, after, deleted, stillValid, fewer⟩ :=
    conserves.delete valid entries machine
  refine ⟨time + taken, wrapped, after, ?_, stillValid, fewer⟩
  simp only [deleteWrapped, onWrapped, outcome_bind, outcome_zoom, deleted, Except.map, after_ok,
    outcome_pure]

theorem deleteHot_exists (conserves : EntryStore.Conserves Valid) (valid : Valid merging.wrapped)
    (entries : Nat) (machine : Machine τ) :
    ∃ total wrapped machine', outcome (if entries = 0 then pure Scalar.zero
          else deleteWrapped entries Scalar.zero) ⟨merging, machine⟩ =
        .ok (.ok total, ⟨{ merging with wrapped }, machine'⟩) ∧
      Valid wrapped ∧
      EntryStore.entries wrapped = EntryStore.entries merging.wrapped - entries := by
  by_cases nothing : entries = 0
  · subst nothing
    exact ⟨Scalar.zero, merging.wrapped, machine, rfl, valid, rfl⟩
  · simp only [if_neg nothing]
    exact deleteWrapped_exists conserves valid entries Scalar.zero machine

theorem deleteCold_exists (conserves : EntryStore.Conserves Valid) (sides : merging.Sides Valid)
    {entries : Nat} (enough : entries ≤ merging.cold.entries) (time : τ) (machine : Machine τ) :
    ∃ total after machine', outcome
        (if entries = 0 then pure time else deleteCold entries time)
        ⟨merging, machine⟩ = .ok (.ok total, ⟨after, machine'⟩) ∧
      after.Sides Valid ∧ after.expectedEntries = merging.expectedEntries ∧
      after.entries + entries = merging.entries ∧
      merging.routing.touch .point entries = .ok (entries, after.routing) := by
  by_cases nothing : entries = 0
  · subst nothing
    exact ⟨time, merging, machine, rfl, sides, rfl, rfl, merging.touch_nothing .point⟩
  · obtain ⟨moved, cold, wrapped, ledger, between, migrated, movedSides, fewer, more, routed⟩ :=
      migrate_exists conserves sides .point enough time machine
    obtain ⟨total, left, after, deleted, valid, kept⟩ :=
      deleteWrapped_exists conserves movedSides.wrapped entries moved between
    have same : EntryStore.entries left = EntryStore.entries merging.wrapped := by
      rw [kept]
      simp only [more]
      omega
    refine ⟨total, { merging with cold, wrapped := left, ledger }, after, ?_,
      ⟨movedSides.cold, valid⟩, rfl, ?_, ?_⟩
    · simp only [if_neg nothing, deleteCold, outcome_bind, migrated, after_ok, deleted]
    · simp only [Merging.entries, same]
      omega
    · rw [routed]
      simp only [routing, same]

theorem delete_exists (conserves : EntryStore.Conserves Valid) (settled : merging.Settled Valid)
    (entries : Nat) (machine : Machine τ) :
    ∃ time after machine', outcome (delete entries) ⟨merging, machine⟩ =
        .ok (.ok time, ⟨after, machine'⟩) ∧
      after.Settled Valid ∧ after.entries = merging.entries - entries ∧
      merging.routing.delete entries = .ok after.routing := by
  by_cases nothing : min entries merging.entries = 0
  · have nothingRouted : min entries merging.routing.entries = 0 := nothing
    refine ⟨Scalar.zero, merging, machine, ?_, settled, by omega, ?_⟩
    · simp only [delete, outcome_bind, outcome_store, after_ok, if_pos nothing, outcome_pure]
    · simp only [Routing.delete, if_pos nothingRouted]
  · have somethingRouted : ¬min entries merging.routing.entries = 0 := nothing
    obtain ⟨parts, found, whole, coldEnough, hotEnough⟩ :=
      Split.of_exists merging.carry (Nat.min_le_right entries merging.entries)
    let begun : Merging τ σ := { merging with carry := parts.carry }
    have begunValid : Valid begun.wrapped := settled.wrapped
    obtain ⟨time, wrapped, between, hotDeleted, valid, kept⟩ :=
      deleteHot_exists conserves begunValid parts.hot machine
    have sides : ({ begun with wrapped } : Merging τ σ).Sides Valid := ⟨settled.cold, valid⟩
    obtain ⟨total, after, finish, coldDeleted, afterSides, expected, fewer, touched⟩ :=
      deleteCold_exists conserves sides coldEnough time between
    have fewerRouted : { begun with wrapped }.routing =
        { begun.routing with hot := begun.routing.hot - parts.hot } := by
      simp only [routing, kept, begun]
    rw [fewerRouted] at touched
    have left : after.entries = merging.entries - min entries merging.entries := by
      have both : merging.entries =
          merging.cold.entries + EntryStore.entries merging.wrapped := rfl
      have rest : ({ begun with wrapped } : Merging τ σ).entries =
          merging.cold.entries + (EntryStore.entries merging.wrapped - parts.hot) := by
        rw [Merging.entries, kept]
      omega
    have enough : min entries merging.entries ≤ after.expectedEntries := by
      rw [expected]
      exact settled.expected ▸ Nat.min_le_right ..
    let reduced : Merging τ σ := { after with
      expectedEntries := after.expectedEntries - min entries merging.entries }
    have balanced : reduced.expectedEntries = reduced.entries := by
      have before : after.expectedEntries = merging.entries := expected.trans settled.expected
      exact (congrArg (· - min entries merging.entries) before).trans left.symm
    have reducedSides : reduced.Sides Valid := ⟨afterSides.cold, afterSides.wrapped⟩
    obtain ⟨closedAfter, closed, still, closedEntries, counted⟩ :=
      close_exists reducedSides balanced .delete total finish
    refine ⟨total, closedAfter, finish, ?_, still, ?_, ?_⟩
    · simp only [delete, branches_bind]
      simp only [outcome_bind, outcome_store, after_ok, if_neg nothing, outcome_split found]
      simp only [begun] at hotDeleted coldDeleted
      simp only [hotDeleted, coldDeleted, after_ok, outcome_bind, outcome_expectFewer enough]
        at closed ⊢
      exact closed
    · rw [closedEntries]
      exact left.trans (by omega)
    · rw [counted]
      exact Routing.delete_of_split somethingRouted found touched

theorem conserves (conserves : EntryStore.Conserves Valid) :
    EntryStore.Conserves (Settled Valid : Merging τ σ → Prop) where
  insert := by
    intro merging settled entries machine
    obtain ⟨time, after, finish, ran, still, more, _⟩ :=
      insert_exists conserves settled entries machine
    exact ⟨time, after, finish, ran, still, more⟩
  find := by
    intro merging settled lookup entries repeats machine
    obtain ⟨time, after, finish, ran, still, same, _⟩ :=
      find_exists conserves settled lookup entries repeats machine
    exact ⟨time, after, finish, ran, still, same⟩
  delete := by
    intro merging settled entries machine
    obtain ⟨time, after, finish, ran, still, fewer, _⟩ :=
      delete_exists conserves settled entries machine
    exact ⟨time, after, finish, ran, still, fewer⟩

end Merging

end MergeCost
