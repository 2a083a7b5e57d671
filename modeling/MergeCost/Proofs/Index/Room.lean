import MergeCost.Proofs.Device.Transfers
import MergeCost.Proofs.Index.Composition
import MergeCost.Proofs.Index.Traversals
import MergeCost.Proofs.Index.Tree
import MergeCost.Proofs.Index.Words

/-!
Room for runs in words. The counts of a disk and of all ledgers only grow, and the bytes of cold
entries only shrink. Words that hold what a run leaves have held what it counted on the way, so that
it ends in words as it does otherwise. This is shown for each way in which runs are composed, and
for the requests to trees.
-/

namespace MergeCost

open Sim

variable {τ σ α β : Type}

namespace OperationLedger

/-- No number of operations has grown too large for a word. -/
protected def Fits (ledger : OperationLedger τ) : Prop :=
  ∀ operation, Fits (ledger.operations operation)

theorem hold_of_fits {ledger : OperationLedger τ} (fits : ledger.Fits) : ledger.hold = .ok () :=
  if_pos fun operation _ => fits operation

theorem fits_of_le {before after : OperationLedger τ}
    (grows : ∀ operation, before.operations operation ≤ after.operations operation)
    (fits : after.Fits) : before.Fits :=
  fun operation => Word.fits_of_le (grows operation) (fits operation)

end OperationLedger

/-- Stores that say which of their counts have to fit into words. -/
class EntryStore.Limited (τ : outParam Type) (σ : Type) [EntryStore τ σ] where
  /-- Words hold the operations that have been counted, at each level. -/
  Counted : σ → Prop
  /-- Words hold the bytes of the cold entries, at each level. -/
  ColdFits : σ → Prop
  ledger_fits : ∀ {store : σ}, Counted store → (EntryStore.ledger store).Fits

open EntryStore.Limited (Counted ColdFits)

instance BTree.limited [Scalar τ] : EntryStore.Limited τ (BTree τ) where
  Counted tree := tree.ledger.Fits
  ColdFits _ := True
  ledger_fits := id

instance Merging.limited [Scalar τ] [EntryStore τ σ] [EntryStore.Limited τ σ] :
    EntryStore.Limited τ (Merging τ σ) where
  Counted merging := merging.ledger.Fits ∧ Counted merging.wrapped
  ColdFits merging :=
    Fits (merging.cold.entries * merging.cold.base.recordSize) ∧ ColdFits merging.wrapped
  ledger_fits := And.left

instance Stack.limited [Scalar τ] : (depth : Nat) → EntryStore.Limited τ (Stack τ depth)
  | 0 => inferInstanceAs (EntryStore.Limited τ (BTree τ))
  | depth + 1 =>
      have := Stack.limited depth
      inferInstanceAs (EntryStore.Limited τ (Merging τ (Stack τ depth)))

section

variable [EntryStore τ σ] [EntryStore.Limited τ σ]
  {world between after first second third : World τ σ}

/-- Words hold what has been counted on the disk and in the store. -/
def World.Roomy (world : World τ σ) : Prop := world.machine.disk.Fits ∧ Counted world.store

/-- From the first world to the second counts have grown, and the cold side has not. -/
structure World.LeadsTo (before after : World τ σ) : Prop where
  disk : before.machine.disk.Grows after.machine.disk
  counted : Counted after.store → Counted before.store
  small : ColdFits before.store → ColdFits after.store

namespace World.LeadsTo

theorem refl (world : World τ σ) : world.LeadsTo world := ⟨.refl _, id, id⟩

theorem trans (start : first.LeadsTo second) (rest : second.LeadsTo third) :
    first.LeadsTo third where
  disk := start.disk.trans rest.disk
  counted := start.counted ∘ rest.counted
  small := rest.small ∘ start.small

theorem roomy (leads : world.LeadsTo after) (roomy : after.Roomy) : world.Roomy :=
  ⟨leads.disk.fits roomy.1, leads.counted roomy.2⟩

end World.LeadsTo

/-- If the exact run ends well, then so does the run in words, unless there is no room for what it
leaves. -/
def Sim.EndsInWords (inWords exact : Sim τ σ α) (world : World τ σ) : Prop :=
  exact.Yields world fun value after =>
    world.LeadsTo after ∧ (after.Roomy → outcome inWords world = .ok (.ok value, after))

namespace Sim.EndsInWords

theorem same {action : Sim τ σ α} (leads : action.Yields world fun _ after => world.LeadsTo after) :
    EndsInWords action action world :=
  fun value after ran => ⟨leads value after ran, fun _ => ran⟩

theorem pure (value : α) : EndsInWords (Pure.pure value) (Pure.pure value) world :=
  same ((yields_pure _ _).mpr (.refl world))

theorem bind {inWords exact : Sim τ σ α} {next nextExact : α → Sim τ σ β}
    (first : EndsInWords inWords exact world)
    (rest : exact.Yields world fun value between =>
      world.LeadsTo between → EndsInWords (next value) (nextExact value) between) :
    EndsInWords (inWords >>= next) (exact >>= nextExact) world := by
  rw [EndsInWords, yields_bind]
  intro value between started
  obtain ⟨leads, ends⟩ := first value between started
  refine (rest value between started leads).mono ?_
  rintro result after ⟨leadsOn, endsOn⟩
  refine ⟨leads.trans leadsOn, fun roomy => ?_⟩
  rw [outcome_bind, ends (leadsOn.roomy roomy), after_ok, endsOn roomy]

theorem store_bind {next nextExact : σ → Sim τ σ α}
    (rest : EndsInWords (next world.store) (nextExact world.store) world) :
    EndsInWords (store >>= next) (store >>= nextExact) world := by
  rw [EndsInWords, yields_bind, yields_store]
  exact rest

theorem ite {choice : Prop} [Decidable choice] {first second firstExact secondExact : Sim τ σ α}
    (chosen : choice → EndsInWords first firstExact world)
    (other : ¬choice → EndsInWords second secondExact world) :
    EndsInWords (if choice then first else second)
      (if choice then firstExact else secondExact) world := by
  split
  · exact chosen ‹_›
  · exact other ‹_›

end Sim.EndsInWords

end

namespace EntryStore

variable [EntryStore τ σ] [Limited τ σ] {Valid : σ → Prop} {world : World τ σ}
  {inWords : Sim τ σ τ} {amount : Nat}

/-- Valid stores whose requests end in words as the requests do, wherever there is room. -/
structure EndsInWords [InWords τ σ] (Valid : σ → Prop) : Prop where
  insert : ∀ {store : σ}, Valid store → ColdFits store → ∀ {amount : Nat},
    Fits (entries store + amount) → ∀ machine : Machine τ,
    Sim.EndsInWords (InWords.insert amount) (EntryStore.insert amount) ⟨store, machine⟩
  find : ∀ {store : σ}, Valid store → ColdFits store → Fits (entries store) →
    ∀ (lookup : Lookup) (amount repeats : Nat) (machine : Machine τ),
    Sim.EndsInWords (InWords.find lookup amount repeats) (EntryStore.find lookup amount repeats)
      ⟨store, machine⟩
  delete : ∀ {store : σ}, Valid store → ColdFits store → Fits (entries store) →
    ∀ (amount : Nat) (machine : Machine τ),
    Sim.EndsInWords (InWords.delete amount) (EntryStore.delete amount) ⟨store, machine⟩

theorem held_ends {exact : Sim τ σ τ}
    (fits : exact.Yields world fun _ after => Fits (entries after.store))
    (ends : Sim.EndsInWords inWords exact world) : Sim.EndsInWords (held inWords) exact world := by
  intro value after ran
  obtain ⟨leads, ended⟩ := ends value after ran
  refine ⟨leads, fun roomy => ?_⟩
  have whole : Fits (entries after.store) := fits value after ran
  have counted : (ledger after.store).Fits := Limited.ledger_fits roomy.2
  simp only [held, outcome_bind, ended roomy, after_ok, outcome_store, Word.hold_of_fits whole,
    OperationLedger.hold_of_fits counted, outcome_orCrash_ok, outcome_pure]

variable (conserves : Conserves Valid) (valid : Valid world.store)
include conserves valid

theorem held_insert_ends (fits : Fits (entries world.store + amount))
    (ends : Sim.EndsInWords inWords (EntryStore.insert amount) world) :
    Sim.EndsInWords (held inWords) (EntryStore.insert amount) world := by
  obtain ⟨_, _, _, ran, _, more⟩ := conserves.insert valid amount world.machine
  exact held_ends ((yields_of_outcome ran _).mpr (more ▸ fits)) ends

theorem held_find_ends (fits : Fits (entries world.store)) {lookup : Lookup} {repeats : Nat}
    (ends : Sim.EndsInWords inWords (EntryStore.find lookup amount repeats) world) :
    Sim.EndsInWords (held inWords) (EntryStore.find lookup amount repeats) world := by
  obtain ⟨_, _, _, ran, _, same⟩ := conserves.find valid lookup amount repeats world.machine
  exact held_ends ((yields_of_outcome ran _).mpr (same ▸ fits)) ends

theorem held_delete_ends (fits : Fits (entries world.store))
    (ends : Sim.EndsInWords inWords (EntryStore.delete amount) world) :
    Sim.EndsInWords (held inWords) (EntryStore.delete amount) world := by
  obtain ⟨_, _, _, ran, _, fewer⟩ := conserves.delete valid amount world.machine
  refine held_ends ((yields_of_outcome ran _).mpr ?_) ends
  rw [fewer]
  exact Word.fits_of_le (Nat.sub_le ..) fits

end EntryStore

/-! Trees -/

namespace BTree

open EntryStore (held_insert_ends held_find_ends held_delete_ends)

variable [Scalar τ] {world : World τ (BTree τ)} {action : Sim τ (BTree τ) τ}
  {insertions leaves : Nat}

theorem leadsTo_of_serves (composed : action.Composed Event.IsMerging)
    (serves : action.Yields world fun _ after => Serves world insertions leaves after) :
    action.Yields world fun _ after => world.LeadsTo after :=
  fun value after ran => ⟨composed.grows ran,
    OperationLedger.fits_of_le (serves value after ran).operations_le, fun _ => trivial⟩

theorem inWords_ends (composed : action.Composed Event.IsMerging)
    (serves : action.Yields world fun _ after => Serves world insertions leaves after) :
    Sim.EndsInWords (inWords action) action world := by
  intro value after ran
  refine ⟨leadsTo_of_serves composed serves value after ran, fun roomy => ?_⟩
  rw [outcome_inWords ran, if_pos roomy.1]

/-- The leaves of a range are among the bytes that have been read. -/
theorem leaves_le_of_findRange {entries repeats : Nat} {time : τ} {after : World τ (BTree τ)}
    (something : ¬(min entries world.store.entries = 0 ∨ repeats = 0))
    (ran : outcome (findRange entries repeats) world = .ok (.ok time, after)) :
    unitsFor (min entries world.store.entries) world.store.fanout * world.store.nodeSize ≤
      (after.machine.disk.total.traffic .read).bytes := by
  obtain ⟨_, _, performs⟩ := world.store.findRange_performs entries repeats
    world.machine.disk.device
  obtain ⟨left, ended, transferred⟩ := performs world.machine rfl
  cases ended.symm.trans ran
  obtain ⟨some, again⟩ := not_or.mp something
  have reads : ⟨.read, unitsFor (min entries world.store.entries) world.store.fanout *
      world.store.nodeSize⟩ ∈ world.store.readings .range entries repeats := by
    refine List.mem_flatten.mpr ⟨_, List.mem_replicate.mpr ⟨again, rfl⟩, ?_⟩
    simp only [reading, if_neg some]
    exact List.mem_append_right _ List.mem_cons_self
  rw [transferred, (world.machine.disk.counts_transferAll _ .read).1]
  exact Nat.le_add_left_of_le (Transfer.bytes_le_bytesOf reads)

theorem findRangeInWords_ends (entries repeats : Nat) :
    Sim.EndsInWords (findRangeInWords entries repeats) (findRange entries repeats) world := by
  intro time after ran
  refine ⟨leadsTo_of_serves (findRange_composed entries repeats)
    (findRange_serves entries repeats world) time after ran, fun roomy => ?_⟩
  by_cases nothing : min entries world.store.entries = 0 ∨ repeats = 0
  · simp only [findRange, findRangeInWords, outcome_bind, outcome_store, after_ok, if_pos nothing]
      at ran ⊢
    exact ran
  · have read := (AccessLedger.fits_iff.mp roomy.1.2 .read).1
    have fits := Word.fits_of_le (leaves_le_of_findRange nothing ran) read
    simp only [findRangeInWords, outcome_bind, outcome_store, after_ok, if_neg nothing, Word.mul,
      Word.hold_of_fits fits, outcome_orCrash_ok, outcome_inWords ran, if_pos roomy.1]

theorem endsInWords : EntryStore.EndsInWords (fun _ : BTree τ => True) where
  insert := by
    intro tree _ _ amount fits machine
    refine held_insert_ends conserves trivial fits ?_
    by_cases nothing : amount = 0
    · subst nothing
      exact inWords_ends (insert_composed 0) ((yields_pure _ _).mpr (.nothing _))
    · exact inWords_ends (insert_composed amount) (insert_serves (Nat.pos_of_ne_zero nothing) _)
  find := by
    intro tree _ _ fits lookup amount repeats machine
    cases lookup with
    | point =>
        exact held_find_ends conserves trivial fits
          (inWords_ends (findPoint_composed amount repeats) (findPoint_serves amount repeats _))
    | range =>
        exact held_find_ends conserves trivial fits (findRangeInWords_ends amount repeats)
  delete := by
    intro tree _ _ fits amount machine
    exact held_delete_ends conserves trivial fits
      (inWords_ends (delete_composed amount) (delete_serves amount _))

end BTree

end MergeCost
