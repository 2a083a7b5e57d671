import MergeCost.Proofs.Cold.Passes
import MergeCost.Proofs.Cost.Touch

/-!
Bytes that touches overwrite. In place it is those of the entries that leave; where invalidation is
put off, it is the live bytes that the passes of reorganization report. No touch writes anything
without replacing something.
-/

namespace MergeCost

open Sim

variable {τ : Type}

/-- The live bytes that a pass of reorganization has moved. -/
def Event.rewritten? : Event τ → Option Nat
  | reorganized _ _ _ liveBytes _ _ => some liveBytes
  | _ => none

/-- The live bytes of each pass that has been reported. -/
def Machine.rewritten (machine : Machine τ) : List Nat :=
  machine.log.toList.filterMap Event.rewritten?

/-- Between two states of a machine nothing has been written that was not there before, so many
bytes have been overwritten, and passes over so many live bytes have been reported. -/
structure Machine.Overwrites (before : Machine τ) (bytes : Nat) (rewritten : List Nat)
    (after : Machine τ) : Prop where
  write_eq : (after.disk.total.traffic .write).bytes = (before.disk.total.traffic .write).bytes
  overwrite_eq : (after.disk.total.traffic .overwrite).bytes =
    (before.disk.total.traffic .overwrite).bytes + bytes
  rewritten_eq : after.rewritten = before.rewritten ++ rewritten

namespace Machine.Overwrites

variable {first second third : Machine τ}

theorem nothing (machine : Machine τ) : machine.Overwrites 0 [] machine :=
  ⟨rfl, rfl, (List.append_nil _).symm⟩

theorem trans {bytes moreBytes : Nat} {rewritten moreRewritten : List Nat}
    (start : first.Overwrites bytes rewritten second)
    (rest : second.Overwrites moreBytes moreRewritten third) :
    first.Overwrites (bytes + moreBytes) (rewritten ++ moreRewritten) third := by
  refine ⟨rest.write_eq.trans start.write_eq, ?_, ?_⟩
  · rw [rest.overwrite_eq, start.overwrite_eq, Nat.add_assoc]
  · rw [rest.rewritten_eq, start.rewritten_eq, List.append_assoc]

theorem emit (machine : Machine τ) {event : Event τ} (silent : event.rewritten? = none) :
    machine.Overwrites 0 [] (machine.emit event) :=
  ⟨rfl, rfl, by simp [Machine.emit, Machine.rewritten, silent]⟩

theorem report (machine : Machine τ) {event : Event τ} {liveBytes : Nat}
    (pass : event.rewritten? = some liveBytes) :
    machine.Overwrites 0 [liveBytes] (machine.emit event) :=
  ⟨rfl, rfl, by simp [Machine.emit, Machine.rewritten, pass]⟩

variable [Scalar τ]

theorem read (machine : Machine τ) (bytes : Nat) :
    machine.Overwrites 0 [] (machine.access .read bytes).2 := by
  by_cases none : bytes = 0
  · subst none
    exact nothing machine
  · refine ⟨?_, ?_, ?_⟩ <;> simp [Machine.access, Disk.access, none,
      AccessLedger.traffic_record_of_ne, Machine.rewritten, Event.rewritten?]

theorem overwrite (machine : Machine τ) (bytes : Nat) :
    machine.Overwrites bytes [] (machine.access .overwrite bytes).2 := by
  by_cases none : bytes = 0
  · subst none
    exact nothing machine
  · refine ⟨?_, ?_, ?_⟩ <;> simp [Machine.access, Disk.access, none, AccessLedger.traffic_record,
      AccessLedger.traffic_record_of_ne, Traffic.record, Machine.rewritten, Event.rewritten?]

end Machine.Overwrites

variable [Scalar τ]

namespace PartitionStore

theorem load_overwrites (partition : Nat) (world : World τ PartitionStore) :
    (load partition).Yields world fun _ after =>
      after.store = world.store ∧ world.machine.Overwrites 0 [] after.machine := by
  rw [load, yields_bind]
  refine (bytesOf_kept partition world).mono ?_
  rintro bytes _ rfl
  exact (yields_access _ _ _).mpr ⟨rfl, .read _ _⟩

/-- Where entries are invalidated in place, just their own bytes are overwritten. -/
theorem invalidate_overwrites (part : Located) (world : World τ PartitionStore) :
    (invalidate part).Yields world fun _ after => after.store = world.store ∧
      ∃ bytes, world.machine.Overwrites bytes [] after.machine ∧
        (world.store.invalidation = .inPlace → bytes = part.entries * world.store.recordSize) := by
  simp only [invalidate, yields_bind, yields_store]
  cases mode : world.store.invalidation with
  | blockRewrite =>
      simp only [yields_bind]
      refine (bytesOf_kept part.partition world).mono ?_
      rintro bytes _ rfl
      simp only [yields_disk, yields_access]
      refine ⟨trivial, _, .overwrite _ _, fun inPlace => ?_⟩
      contradiction
  | inPlace =>
      simp only [yields_bind, yields_access, yields_pure]
      refine ⟨trivial, _, (Machine.Overwrites.read _ _).trans (.overwrite _ _), fun _ => ?_⟩
      exact Nat.zero_add _

omit [Scalar τ] in
theorem take_drains (partition entries : Nat) (world : World τ PartitionStore) :
    (take partition entries).Yields world fun _ after =>
      after = ⟨world.store.drain ⟨partition, entries⟩, world.machine⟩ := by
  by_cases inside : partition < world.store.partitions.size
  · exact (yields_of_outcome (outcome_take inside entries world.machine) _).mpr rfl
  · have none := Array.getElem?_eq_none (Nat.le_of_not_lt inside)
    simp only [take, yields_bind, yields_store, none]
    exact yields_crash _ _

theorem touchOne_overwrites (cost : TouchCost τ) (part : Located) (world : World τ PartitionStore) :
    (touchOne cost part).Yields world fun _ after => after.store = world.store.drain part ∧
      ∃ bytes, world.machine.Overwrites bytes [] after.machine ∧
        (world.store.invalidation = .inPlace → bytes = part.entries * world.store.recordSize) := by
  simp only [touchOne, yields_bind]
  refine (invalidate_overwrites part world).mono ?_
  rintro _ between ⟨same, bytes, invalidated, inPlace⟩
  refine (load_overwrites part.partition between).mono ?_
  rintro _ loaded ⟨still, read⟩
  refine (take_drains part.partition part.entries loaded).mono ?_
  rintro _ _ rfl
  rw [yields_pure, still, same]
  exact ⟨rfl, bytes, invalidated.trans read, inPlace⟩

theorem touchAll_overwrites (located : List Located) (cost : TouchCost τ)
    (world : World τ PartitionStore) :
    (located.foldlM touchOne cost).Yields world fun _ after =>
      ∃ bytes, world.machine.Overwrites bytes [] after.machine ∧
        (world.store.invalidation = .inPlace →
          bytes = (located.map Located.entries).sum * world.store.recordSize) := by
  induction located generalizing cost world with
  | nil => exact (yields_pure _ _).mpr ⟨0, .nothing _, fun _ => (Nat.zero_mul _).symm⟩
  | cons part rest ih =>
      rw [List.foldlM_cons, yields_bind]
      refine (touchOne_overwrites cost part world).mono ?_
      rintro next between ⟨drained, bytes, overwrites, inPlace⟩
      refine (ih next between).mono ?_
      rintro _ after ⟨moreBytes, more, moreInPlace⟩
      rw [drained] at moreInPlace
      refine ⟨bytes + moreBytes, overwrites.trans more, fun mode => ?_⟩
      rw [inPlace mode, moreInPlace mode, List.map_cons, List.sum_cons, Nat.add_mul]
      rfl

theorem touch_overwrites (located : List Located) (world : World τ PartitionStore) :
    (touch located).Yields world fun _ after =>
      ∃ bytes, world.machine.Overwrites bytes [] after.machine ∧
        (world.store.invalidation = .inPlace →
          bytes = (located.map Located.entries).sum * world.store.recordSize) := by
  rw [touch, yields_ite]
  constructor
  · intro nothing
    rw [List.isEmpty_iff.mp nothing]
    exact (yields_pure _ _).mpr ⟨0, .nothing _, fun _ => (Nat.zero_mul _).symm⟩
  · intro _
    simp only [yields_bind, yields_emit, yields_pure]
    refine (touchAll_overwrites located .empty world).mono ?_
    rintro cost after ⟨bytes, overwrites, inPlace⟩
    exact ⟨bytes, overwrites.trans (.emit _ rfl), inPlace⟩

end PartitionStore

namespace GroupedStore

theorem touchOne_overwrites (cost : TouchCost τ) (part : Located)
    (world : World τ (GroupedStore τ)) :
    (touchOne cost part).Yields world fun next after =>
      next.invalidations = cost.invalidations ∧
        world.machine.Overwrites 0 [] after.machine := by
  simp only [touchOne, onBase, yields_bind, yields_zoom]
  refine (PartitionStore.load_overwrites part.partition _).mono ?_
  rintro _ between ⟨_, read⟩
  refine (PartitionStore.take_drains part.partition part.entries _).mono ?_
  rintro _ _ rfl
  simp only [yields_update, yields_pure]
  exact ⟨trivial, read⟩

/-- A pass overwrites the live bytes that it reports. -/
theorem reorganize_overwrites (selected : List (EraseBlock × Nat)) (bins : List Bin)
    (world : World τ (GroupedStore τ)) :
    (reorganize selected bins).Yields world fun _ after =>
      ∃ bytes, world.machine.Overwrites bytes [bytes] after.machine := by
  simp only [reorganize, yields_bind, yields_store, yields_access, yields_ite, yields_update,
    yields_emit, yields_pure]
  refine ⟨fun _ => yields_crash _ _, fun _ => ?_⟩
  let bytes := total ((selected.map Prod.fst).map EraseBlock.valid)
  have moved := (Machine.Overwrites.read world.machine bytes).trans (.overwrite _ bytes)
  rw [Nat.zero_add] at moved
  exact ⟨bytes, moved.trans (.report _ rfl)⟩

theorem touch_overwrites (located : List Located) (world : World τ (GroupedStore τ)) :
    (touch located).Yields world fun cost after =>
      ∃ rewritten, world.machine.Overwrites rewritten.sum rewritten after.machine ∧
        rewritten.length = cost.invalidations := by
  rw [touch, yields_ite]
  refine ⟨fun _ => (yields_pure _ _).mpr ⟨[], .nothing _, rfl⟩, fun _ => ?_⟩
  let holds (cost : TouchCost τ) (after : World τ (GroupedStore τ)) : Prop :=
    cost.invalidations = 0 ∧ world.machine.Overwrites 0 [] after.machine
  have start : holds .empty world := ⟨rfl, .nothing _⟩
  rw [yields_bind]
  refine (yields_foldlM ?_ start).mono ?_
  · rintro part cost between ⟨none, marked⟩
    refine (touchOne_overwrites cost part between).mono ?_
    rintro next after ⟨same, read⟩
    exact ⟨same.trans none, marked.trans read⟩
  · rintro cost between ⟨none, marked⟩
    simp only [yields_bind, yields_store]
    cases between.store.plan? with
    | none => exact (yields_pure _ _).mpr ⟨[], marked, none.symm⟩
    | some plan =>
        simp only [yields_bind, yields_pure]
        refine (reorganize_overwrites plan.1 plan.2 between).mono ?_
        rintro time after ⟨bytes, rewrites⟩
        refine ⟨[bytes], ?_, rfl⟩
        have both := marked.trans rewrites
        rwa [Nat.zero_add] at both

end GroupedStore

namespace ColdTier

/-- What touches of a tier overwrite, by the way in which it is charged. -/
structure Overwritten (tier : ColdTier τ) (entries invalidations bytes : Nat)
    (rewritten : List Nat) : Prop where
  inPlace : ∀ store, tier = .plain store → store.invalidation = .inPlace →
    bytes = entries * store.recordSize
  grouped : ∀ store, tier = .grouped store →
    bytes = rewritten.sum ∧ rewritten.length = invalidations

omit [Scalar τ] in
theorem Overwritten.nothing (tier : ColdTier τ) : tier.Overwritten 0 0 0 [] :=
  ⟨fun _ _ _ => (Nat.zero_mul _).symm, fun _ _ => ⟨rfl, rfl⟩⟩

omit [Scalar τ] in
/-- A tier goes on in the way in which it is charged. -/
theorem Overwritten.trans {first second : ColdTier τ}
    {touches entries moreEntries invalidations moreInvalidations bytes moreBytes : Nat}
    {rewritten moreRewritten : List Nat}
    (start : first.Overwritten entries invalidations bytes rewritten)
    (goes : first.Goes touches invalidations second)
    (rest : second.Overwritten moreEntries moreInvalidations moreBytes moreRewritten) :
    first.Overwritten (entries + moreEntries) (invalidations + moreInvalidations)
      (bytes + moreBytes) (rewritten ++ moreRewritten) := by
  cases goes with
  | @plain before after _ recordSize invalidation =>
      refine ⟨?_, nofun⟩
      rintro _ ⟨⟩ mode
      have more := rest.inPlace after rfl (invalidation.trans mode)
      rw [start.inPlace before rfl mode, more, recordSize, Nat.add_mul]
  | @grouped before after _ _ advances most =>
      refine ⟨nofun, ?_⟩
      rintro _ ⟨⟩
      obtain ⟨bytesEq, counted⟩ := start.grouped before rfl
      obtain ⟨moreBytesEq, moreCounted⟩ := rest.grouped after rfl
      rw [bytesEq, counted.symm, moreBytesEq, moreCounted.symm]
      exact ⟨List.sum_append.symm, List.length_append⟩

theorem touch_overwrites (located : List Located) (world : World τ (ColdTier τ)) :
    (touch located).Yields world fun cost after =>
      ∃ bytes rewritten, world.machine.Overwrites bytes rewritten after.machine ∧
        world.store.Overwritten (located.map Located.entries).sum cost.invalidations bytes
          rewritten := by
  simp only [touch, yields_bind, yields_store]
  cases tier : world.store with
  | plain store =>
      simp only [yields_zoom]
      refine (PartitionStore.touch_overwrites located ⟨store, world.machine⟩).mono ?_
      rintro cost after ⟨bytes, overwrites, inPlace⟩
      refine ⟨bytes, [], overwrites, fun _ same mode => ?_, fun _ same => ?_⟩ <;> cases same
      exact inPlace mode
  | grouped store =>
      simp only [yields_zoom]
      refine (GroupedStore.touch_overwrites located ⟨store, world.machine⟩).mono ?_
      rintro cost after ⟨rewritten, overwrites, counted⟩
      refine ⟨rewritten.sum, rewritten, overwrites, fun _ same => ?_, fun _ same => ?_⟩ <;>
        cases same
      exact ⟨rfl, counted⟩

end ColdTier

end MergeCost
