import MergeCost.Proofs.Index.History
import MergeCost.Proofs.Index.Room

/-!
The limits of runs in words, on adaptive merging at whatever level. What is left by each part of a
request has room if what the whole request leaves has, and the entries never exceed those that there
are before it or are inserted. So a run in words breaks off only where its calls leave more than
words can hold.
-/

namespace MergeCost

open Sim
open EntryStore.Limited (Counted ColdFits)
open EntryStore (held_insert_ends held_find_ends held_delete_ends)

variable {τ σ α : Type}

namespace Merging

variable [Scalar τ] [EntryStore τ σ] [EntryStore.Limited τ σ] {Valid : σ → Prop}
  {world : World τ (Merging τ σ)}

theorem onWrapped_ends {inWords exact : Sim τ σ α}
    (ends : Sim.EndsInWords inWords exact ⟨world.store.wrapped, world.machine⟩) :
    Sim.EndsInWords (onWrapped inWords) (onWrapped exact) world := by
  rw [Sim.EndsInWords, onWrapped, yields_zoom]
  refine ends.mono ?_
  rintro value after ⟨leads, ended⟩
  refine ⟨⟨leads.disk, And.imp_right leads.counted, And.imp_right leads.small⟩, fun roomy => ?_⟩
  rw [onWrapped, outcome_zoom, ended ⟨roomy.1, roomy.2.2⟩]
  rfl

theorem record_leadsTo (merging : Merging τ σ) (machine : Machine τ) (operation : Operation)
    (time : τ) (operations : Nat) :
    (⟨merging, machine⟩ : World τ (Merging τ σ)).LeadsTo
      ⟨{ merging with ledger := merging.ledger.record operation time operations }, machine⟩ where
  disk := .refl _
  counted := And.imp_left (OperationLedger.fits_of_le fun other =>
    merging.ledger.operations_le_record operation other time operations)
  small := id

theorem charged_leadsTo (merging : Merging τ σ) (machine : Machine τ) (located : List Located)
    (cost : TouchCost τ) :
    (⟨merging, machine⟩ : World τ (Merging τ σ)).LeadsTo
      ⟨{ merging with ledger := charged merging.ledger located cost }, machine⟩ := by
  unfold charged
  split
  · exact .refl _
  · exact (record_leadsTo merging machine .invalidation _ _).trans (record_leadsTo _ _ .loading _ _)

/-- A touch in words of cold entries ends as the touch does: what it counts is on the disk
afterwards, or is a part of what is there before it. -/
theorem touchColdInWords_ends (sides : world.store.Sides Valid) (small : ColdFits world.store)
    (lookup : Lookup) (entries : Nat) :
    Sim.EndsInWords (touchColdInWords lookup entries) (touchCold lookup entries) world := by
  obtain ⟨located, point, range, found, sound, allots, _⟩ :=
    PartitionStore.locate_exists sides.cold.base lookup entries
  let base := world.store.cold.base.withCursors point range
  let sought := ColdTier.withBase base world.store.cold
  have ran : outcome (ColdTier.locate lookup entries) ⟨world.store.cold, world.machine⟩ =
      .ok (.ok located, ⟨sought, world.machine⟩) := ColdTier.outcome_locate found _
  have soughtBase : sought.base = base := ColdTier.base_withBase _ _
  have allotsSought : sought.base.Allots located := by
    rw [soughtBase]
    exact ⟨allots.distinct, allots.available⟩
  have valid : sought.Valid := sides.cold.withCursors sound
  have there : Fits (sought.base.entries * sought.base.recordSize) := by
    rw [soughtBase]
    exact small.1
  obtain ⟨cost, cold, after, touched, _, drained, _⟩ :=
    ColdTier.touch_exists valid allotsSought.inRange world.machine
  rw [Sim.EndsInWords, yields_of_outcome (outcome_touchCold ran touched)]
  have fewer : cold.entries * cold.base.recordSize ≤
      world.store.cold.entries * world.store.cold.base.recordSize := by
    rw [ColdTier.entries, drained, soughtBase, PartitionStore.recordSize_drainAll]
    exact Nat.mul_le_mul_right _ (base.entries_drainAll_le located)
  have left : world.LeadsTo ⟨{ world.store with cold }, after⟩ :=
    ⟨(ColdTier.touch_composed located).grows touched, id,
      And.imp_left (Word.fits_of_le fewer)⟩
  refine ⟨left.trans (charged_leadsTo _ after located cost), fun roomy => ?_⟩
  have inWords := ColdTier.touchInWords_of_fits valid allotsSought there touched roomy.1
  simp only [touchColdInWords, onCold, outcome_bind, outcome_zoom, ran, Except.map, after_ok,
    inWords]
  have exact := outcome_touchCold ran touched
  simp only [touchCold, onCold, outcome_bind, outcome_zoom, ran, Except.map, after_ok, touched]
    at exact
  exact exact

theorem split_ends {entries : Nat} :
    Sim.EndsInWords (split entries) (split entries) world := by
  refine .same ?_
  simp only [split, yields_bind, yields_store, yields_orCrash, yields_update, yields_pure]
  exact fun parts _ => ⟨.refl _, id, id⟩

theorem close_ends (request : Request) (time : τ) :
    Sim.EndsInWords (do
        record (.request request) time 1
        checkEntries
        return time : Sim τ (Merging τ σ) τ) (do
        record (.request request) time 1
        checkEntries
        return time) world :=
  .same (close_yields (record_leadsTo world.store world.machine _ time 1))

variable [EntryStore.InWords τ σ] (conserves : EntryStore.Conserves Valid)
  (wrapped : EntryStore.EndsInWords Valid)

include wrapped

theorem findWrappedInWords_ends (sides : world.store.Sides Valid) (small : ColdFits world.store)
    (fits : Fits (EntryStore.entries world.store.wrapped)) (lookup : Lookup)
    (entries repeats : Nat) (time : τ) :
    Sim.EndsInWords (findWrappedInWords lookup entries repeats time)
      (findWrapped lookup entries repeats time) world :=
  .bind (onWrapped_ends (wrapped.find sides.wrapped small.2 fits lookup entries repeats _))
    fun _ _ _ _ => .pure _

theorem deleteWrappedInWords_ends (sides : world.store.Sides Valid) (small : ColdFits world.store)
    (fits : Fits (EntryStore.entries world.store.wrapped)) (entries : Nat) (time : τ) :
    Sim.EndsInWords (deleteWrappedInWords entries time) (deleteWrapped entries time) world :=
  .bind (onWrapped_ends (wrapped.delete sides.wrapped small.2 fits entries _))
    fun _ _ _ _ => .pure _

include conserves

theorem migrateInWords_ends (sides : world.store.Sides Valid) (small : ColdFits world.store)
    (fits : Fits world.store.entries) (lookup : Lookup) {entries : Nat} (something : 0 < entries)
    (enough : entries ≤ world.store.cold.entries) (time : τ) :
    Sim.EndsInWords (migrateInWords lookup entries time) (migrate lookup entries time) world := by
  refine .bind (touchColdInWords_ends sides small lookup entries)
    ((touchCold_does conserves sides lookup something enough).mono ?_)
  rintro cost between ⟨moved, touched⟩ leads
  have leaves := touched.leaves conserves
  have hot : EntryStore.entries between.store.wrapped = EntryStore.entries world.store.wrapped :=
    leaves.hot
  have room : Fits (EntryStore.entries between.store.wrapped + cost.entries) := by
    refine Word.fits_of_le ?_ fits
    rw [hot, moved, Merging.entries]
    omega
  have inserted := wrapped.insert (leaves.sides sides).wrapped (leads.small small).2 room
  exact .bind (onWrapped_ends (inserted between.machine)) fun _ _ _ _ => .pure _

theorem findColdInWords_ends (sides : world.store.Sides Valid) (small : ColdFits world.store)
    (fits : Fits world.store.entries) (lookup : Lookup) {entries : Nat}
    (enough : entries ≤ world.store.cold.entries) (repeats : Nat) (time : τ) :
    Sim.EndsInWords
      (if entries = 0 then pure time else findColdInWords lookup entries repeats time)
      (if entries = 0 then pure time else findCold lookup entries repeats time) world := by
  refine .ite (fun _ => .pure time) fun something => ?_
  have some := Nat.pos_of_ne_zero something
  refine .bind (migrateInWords_ends conserves wrapped sides small fits lookup some enough time)
    ((migrate_does conserves sides lookup some enough time).mono ?_)
  rintro ⟨moved, total⟩ between ⟨_, migrated⟩ leads
  have leaves := migrated.leaves conserves
  have room : Fits (EntryStore.entries between.store.wrapped) :=
    Word.fits_of_le (leaves.hot_le (by simp [Deed.inserted, Deed.moved])) fits
  have betweenSides := leaves.sides sides
  have betweenSmall := leads.small small
  refine .ite (fun _ => ?_) fun _ => .pure total
  exact findWrappedInWords_ends wrapped betweenSides betweenSmall room lookup moved _ total

theorem deleteColdInWords_ends (sides : world.store.Sides Valid) (small : ColdFits world.store)
    (fits : Fits world.store.entries) {entries : Nat}
    (enough : entries ≤ world.store.cold.entries) (time : τ) :
    Sim.EndsInWords (if entries = 0 then pure time else deleteColdInWords entries time)
      (if entries = 0 then pure time else deleteCold entries time) world := by
  refine .ite (fun _ => .pure time) fun something => ?_
  have some := Nat.pos_of_ne_zero something
  refine .bind (migrateInWords_ends conserves wrapped sides small fits .point some enough time)
    ((migrate_does conserves sides .point some enough time).mono ?_)
  rintro ⟨moved, total⟩ between ⟨_, migrated⟩ leads
  have leaves := migrated.leaves conserves
  have room : Fits (EntryStore.entries between.store.wrapped) :=
    Word.fits_of_le (leaves.hot_le (by simp [Deed.inserted, Deed.moved])) fits
  exact deleteWrappedInWords_ends wrapped (leaves.sides sides) (leads.small small) room moved total

omit conserves in
theorem insertInWords_ends (sides : world.store.Sides Valid) (small : ColdFits world.store)
    {entries : Nat} (fits : Fits (world.store.entries + entries)) :
    Sim.EndsInWords (insertInWords entries) (insert entries) world := by
  have room : Fits (EntryStore.entries world.store.wrapped + entries) := by
    refine Word.fits_of_le ?_ fits
    rw [Merging.entries]
    omega
  refine .ite (fun _ => .pure _) fun _ =>
    .bind (onWrapped_ends (wrapped.insert sides.wrapped small.2 room _)) fun time _ _ _ => ?_
  refine .bind (.same ((yields_update _ _).mpr ⟨.refl _, id, id⟩)) ?_
  exact (yields_update _ _).mpr fun _ => close_ends .insert time

theorem findInWords_ends (sides : world.store.Sides Valid) (small : ColdFits world.store)
    (fits : Fits world.store.entries) (lookup : Lookup) (entries repeats : Nat) :
    Sim.EndsInWords (findInWords lookup entries repeats) (find lookup entries repeats) world := by
  simp only [findInWords, find, branches_bind]
  refine .store_bind (.ite (fun _ => .pure _) fun something => ?_)
  refine .bind split_ends ((split_does Valid (Nat.min_le_right ..)).mono ?_)
  rintro parts begun ⟨_, _, coldEnough, _, split⟩ leads
  have begunLeaves := split.leaves conserves
  have begunSides := begunLeaves.sides sides
  have begunSmall := leads.small small
  have hotRoom : Fits (EntryStore.entries begun.store.wrapped) :=
    Word.fits_of_le (begunLeaves.hot_le le_rfl) fits
  refine .bind (.ite (fun _ => .pure _) fun _ =>
      findWrappedInWords_ends wrapped begunSides begunSmall hotRoom lookup parts.hot repeats _)
    ((findHot_does conserves begunSides lookup parts.hot repeats).mono ?_)
  intro time between hot leadsOn
  have leaves := (split.trans hot).leaves conserves
  have coldThere : parts.cold ≤ between.store.cold.entries := coldEnough.trans leaves.cold.ge
  have room : Fits between.store.entries := Word.fits_of_le (leaves.entries_le le_rfl) fits
  have betweenSmall := leadsOn.small begunSmall
  exact .bind (findColdInWords_ends conserves wrapped (leaves.sides sides) betweenSmall room lookup
    coldThere repeats time) fun total _ _ _ => close_ends lookup.request total

theorem deleteInWords_ends (sides : world.store.Sides Valid) (small : ColdFits world.store)
    (fits : Fits world.store.entries) (entries : Nat) :
    Sim.EndsInWords (deleteInWords entries) (delete entries) world := by
  simp only [deleteInWords, delete, branches_bind]
  refine .store_bind (.ite (fun _ => .pure _) fun something => ?_)
  refine .bind split_ends ((split_does Valid (Nat.min_le_right ..)).mono ?_)
  rintro parts begun ⟨_, _, coldEnough, hotEnough, split⟩ leads
  have begunLeaves := split.leaves conserves
  have begunSides := begunLeaves.sides sides
  have begunSmall := leads.small small
  have hotRoom : Fits (EntryStore.entries begun.store.wrapped) :=
    Word.fits_of_le (begunLeaves.hot_le le_rfl) fits
  refine .bind (.ite (fun _ => .pure _) fun _ =>
      deleteWrappedInWords_ends wrapped begunSides begunSmall hotRoom parts.hot _)
    ((deleteHot_does conserves begunSides (hotEnough.trans begunLeaves.hot.ge)).mono ?_)
  intro time between hot leadsOn
  have leaves := (split.trans hot).leaves conserves
  have coldThere : parts.cold ≤ between.store.cold.entries := by
    have same := leaves.cold
    simp only [List.nil_append, Deed.sum_deleting, Deed.moved, ite_self] at same
    exact coldEnough.trans same.ge
  have room : Fits between.store.entries :=
    Word.fits_of_le (leaves.entries_le (by simp [Deed.sum_deleting, Deed.inserted])) fits
  have betweenSmall := leadsOn.small begunSmall
  refine .bind (deleteColdInWords_ends conserves wrapped (leaves.sides sides) betweenSmall room
    coldThere time) fun total _ _ _ => ?_
  exact .bind (.same (expectFewer_yields ⟨.refl _, id, id⟩)) fun _ _ _ _ =>
    close_ends .delete total

theorem endsInWords : EntryStore.EndsInWords (Settled Valid : Merging τ σ → Prop) where
  insert settled small _ fits _ := held_insert_ends (Merging.conserves conserves) settled fits
    (insertInWords_ends wrapped settled.toSides small fits)
  find settled small fits lookup entries repeats _ :=
    held_find_ends (Merging.conserves conserves) settled fits
      (findInWords_ends conserves wrapped settled.toSides small fits lookup entries repeats)
  delete settled small fits entries _ :=
    held_delete_ends (Merging.conserves conserves) settled fits
      (deleteInWords_ends conserves wrapped settled.toSides small fits entries)

end Merging

theorem Stack.endsInWords [Scalar τ] (depth : Nat) :
    EntryStore.EndsInWords (Stack.Settled depth : Stack τ depth → Prop) := by
  induction depth with
  | zero => exact BTree.endsInWords
  | succ depth ih => exact Merging.endsInWords (Stack.conserves depth) ih

/-! Calls -/

section

variable [Scalar τ] [EntryStore τ σ] [EntryStore.Limited τ σ] [EntryStore.InWords τ σ]
  {Valid : σ → Prop} {store : σ} {machine : Machine τ} {after : World τ σ}

/-- A call other than a bulkload ends in words as it does otherwise, if words hold the entries
before and after it, the cold ones before it, and what has been counted in the end. -/
theorem Call.actionInWords_of_roomy (conserves : EntryStore.Conserves Valid)
    (ends : EntryStore.EndsInWords Valid) (valid : Valid store)
    (cold : ColdFits store) (entries : Fits (EntryStore.entries store))
    {call : Call τ} (bulkload : ∀ entries, call ≠ .bulkload entries) {result : Except (Error τ) τ}
    (ran : outcome call.action ⟨store, machine⟩ = .ok (result, after)) (roomy : after.Roomy)
    (left : Fits (EntryStore.entries after.store)) :
    outcome call.actionInWords ⟨store, machine⟩ = .ok (result, after) := by
  cases call with
  | insert amount =>
      obtain ⟨_, _, _, ended, _, more⟩ := conserves.insert valid amount machine
      cases ended.symm.trans ran
      have whole : Fits (EntryStore.entries store + amount) := more ▸ left
      exact (ends.insert valid cold whole machine _ _ ended).2 roomy
  | bulkload amount => exact absurd rfl (bulkload amount)
  | find lookup amount repeats =>
      obtain ⟨_, _, _, ended, _⟩ := conserves.find valid lookup amount repeats machine
      cases ended.symm.trans ran
      exact (ends.find valid cold entries lookup amount repeats machine _ _ ended).2 roomy
  | findShare lookup share repeats =>
      have shared := EntryStore.outcome_findShare lookup share repeats ⟨store, machine⟩
      simp only [Call.action, shared] at ran
      simp only [Call.actionInWords, EntryStore.findShareInWords, outcome_bind, outcome_store,
        after_ok]
      cases wanted : entriesOfShare (EntryStore.entries store) share with
      | error refusal =>
          rw [wanted] at ran
          exact ran
      | ok amount =>
          rw [wanted] at ran
          obtain ⟨_, _, _, ended, _⟩ := conserves.find valid lookup amount repeats machine
          cases ended.symm.trans ran
          exact (ends.find valid cold entries lookup amount repeats machine _ _ ended).2 roomy
  | delete amount =>
      obtain ⟨_, _, _, ended, _⟩ := conserves.delete valid amount machine
      cases ended.symm.trans ran
      exact (ends.delete valid cold entries amount machine _ _ ended).2 roomy
  | access kind bytes => exact (outcome_inWords ran).trans (if_pos roomy.1)
  | resetLedgers => exact ran

end

namespace Index

variable [Scalar τ] {index after : Index τ}

/-- Words hold all that an index has counted, the entries in it and the bytes of the cold ones. -/
structure Roomy (index : Index τ) : Prop where
  disk : index.machine.disk.Fits
  counted : Counted index.stack
  cold : ColdFits index.stack
  entries : Fits index.entries

/-- A call that finds room and leaves room is the same in words. -/
theorem callInWords_of_roomy (settled : index.Settled)
    (wrapped : EntryStore.canBulkload index.stack = false) (start : index.Roomy) {call : Call τ}
    {result : Except (Error τ) τ} (called : index.call call = .ok (result, after))
    (left : after.Roomy) : index.callInWords call = .ok (result, after) := by
  obtain ⟨depth, stack, machine⟩ := index
  obtain ⟨_, stackAfter, finish, ran, _⟩ := Stack.call_exists settled call machine
  rw [call_of_outcome ran] at called
  cases called
  have ended : outcome call.actionInWords ⟨stack, machine⟩ =
      .ok (result, ⟨stackAfter, finish⟩) := by
    by_cases bulkload : ∀ entries, call ≠ .bulkload entries
    · exact Call.actionInWords_of_roomy (Stack.conserves depth) (Stack.endsInWords depth) settled
        start.cold start.entries bulkload ran ⟨left.disk, left.counted⟩ left.entries
    · push Not at bulkload
      obtain ⟨entries, rfl⟩ := bulkload
      cases depth with
      | zero => cases wrapped
      | succ depth => exact ran
  simp only [callInWords, perform, ended]
  rfl

/-- Calls on an index that merges are the same in words as long as each of them leaves room. -/
theorem runInWords_of_roomy (settled : index.Settled)
    (wrapped : EntryStore.canBulkload index.stack = false) {calls : List (Call τ)}
    (roomy : ∀ earlier done between, earlier <+: calls → index.run earlier = .ok (done, between) →
      between.Roomy) :
    index.runInWords calls = index.run calls := by
  induction calls generalizing index with
  | nil => rfl
  | cons first rest ih =>
      obtain ⟨result, between, called, still, same, _⟩ := call_exists settled first
      have start : index.Roomy := roomy [] [] index List.nil_prefix rfl
      have next : between.Roomy :=
        roomy [first] [result] between (List.prefix_append [first] rest) (run_of_call called rfl)
      rw [runInWords, run, callInWords_of_roomy settled wrapped start called next, called]
      change (between.runInWords rest >>= _) = (between.run rest >>= _)
      rw [ih still (same.trans wrapped)]
      intro earlier done reached initial ran
      exact roomy (first :: earlier) (result :: done) reached
        (List.cons_prefix_cons.mpr ⟨rfl, initial⟩) (run_of_call called ran)

/-- A run in words on an index that merges breaks off only where the calls leave more than words can
hold. -/
theorem runInWords_limits (settled : index.Settled)
    (wrapped : EntryStore.canBulkload index.stack = false) (calls : List (Call τ)) :
    index.runInWords calls = index.run calls ∨
      (index.runInWords calls = .error .overflow ∧ ∃ earlier done between, earlier <+: calls ∧
        index.run earlier = .ok (done, between) ∧ ¬between.Roomy) := by
  refine (index.runInWords_cases calls).imp_right fun broken => ⟨broken, ?_⟩
  by_contra! roomy
  obtain ⟨results, after, ran, _⟩ := runs_exists settled calls
  cases (broken.symm.trans (runInWords_of_roomy settled wrapped roomy)).trans ran

/-- Two leaves of half the bytes that a word can count are too many. -/
example : ∃ tree index : Index Rat,
    Index.tree (.create (.pcm ⟨⟨"PCM", 64, 1, 2⟩, 0⟩)) 1 1 (2 ^ 63) = .ok tree ∧
    tree.inPlace 4 3 = .ok index ∧ index.runInWords [.insert 2] = .error .overflow := by
  refine ⟨_, _, rfl, rfl, ?_⟩
  cbv

end Index

end MergeCost
