import MergeCost.Proofs.Cold.Remarks
import MergeCost.Proofs.Index.Composition
import MergeCost.Proofs.Index.Counts

/-!
What adaptive merging over a tree remarks in a whole run. Where cold data is invalidated at once,
each call that touches it is remarked once, with what it has taken and with the times by which both
parts of touches have grown. Where invalidation is put off, only the passes are remarked: a touch
that no pass follows leaves no remark.
-/

namespace MergeCost

open Sim

variable {τ σ : Type}

/-! The tree remarks nothing -/

/-- Requests that make no remark. -/
structure EntryStore.Silent (τ σ : Type) [EntryStore τ σ] : Prop where
  insert : ∀ entries, (EntryStore.insert entries : Sim τ σ τ).Silent
  find : ∀ lookup entries repeats, (EntryStore.find lookup entries repeats : Sim τ σ τ).Silent
  delete : ∀ entries, (EntryStore.delete entries : Sim τ σ τ).Silent

theorem EntryStore.Composed.silent [EntryStore τ σ] [Scalar τ]
    (composed : EntryStore.Composed (fun _ => False) σ) : EntryStore.Silent τ σ where
  insert entries := (composed.insert entries).silent
  find lookup entries repeats := (composed.find lookup entries repeats).silent
  delete entries := (composed.delete entries).silent

theorem BTree.silent [Scalar τ] : EntryStore.Silent τ (BTree τ) := BTree.composed.silent

/-- A request is none of the parts of touches. -/
theorem OperationLedger.parts_record_request [Scalar τ] (ledger : OperationLedger τ)
    (request : Request) (time : τ) (operations : Nat) :
    (ledger.record (.request request) time operations).invalidation = ledger.invalidation ∧
      (ledger.record (.request request) time operations).loading = ledger.loading := by
  cases request <;> exact ⟨rfl, rfl⟩

namespace Deed

/-- Just touches take entries from the cold side. -/
theorem sum_moved_eq_zero {deeds : List Deed} (none : deeds.countP isTouch = 0) :
    (deeds.map moved).sum = 0 := by
  rw [List.countP_eq_zero] at none
  rw [List.sum_eq_zero_iff]
  intro amount among
  obtain ⟨deed, made, rfl⟩ := List.mem_map.mp among
  cases deed with
  | insert entries | delete entries => rfl
  | touch entries => exact absurd rfl (none _ made)

theorem exists_touch {deed? : Option Deed} (touches : deed?.toList.countP isTouch ≠ 0) :
    ∃ entries, deed? = some (touch entries) := by
  cases deed? with
  | none => exact absurd rfl touches
  | some deed =>
      cases deed with
      | insert entries | delete entries => exact absurd rfl touches
      | touch entries => exact ⟨entries, rfl⟩

end Deed

/-! What is remarked at a level -/

namespace Level

/-- Nothing has been touched. -/
structure Still (before after : Level τ) : Prop where
  goes : before.cold.Goes 0 0 after.cold
  partitions_eq : after.cold.base.partitions = before.cold.base.partitions
  invalidation_eq : after.ledger.invalidation = before.ledger.invalidation
  loading_eq : after.ledger.loading = before.ledger.loading

/-- So many cold entries have been touched, and this has been remarked of it. -/
structure Touched [Scalar τ] (before : Level τ) (entries : Nat) (remarks : List (Event τ))
    (after : Level τ) : Prop where
  goes : ∃ invalidations, before.cold.Goes 1 invalidations after.cold ∧
    (before.cold.variant = .deferred →
      remarks.length = invalidations ∧ ∀ remark ∈ remarks, remark.isPass)
  atOnce : before.cold.variant ≠ .deferred → ∃ invalidation loading,
    remarks = [.touched (before.cold.base.disturbed after.cold.base) entries invalidation loading] ∧
      after.ledger.invalidation = before.ledger.invalidation.record invalidation 1 ∧
      after.ledger.loading = before.ledger.loading.record loading 1

theorem Still.nothing (level : Level τ) : level.Still level := ⟨.nothing _, rfl, rfl, rfl⟩

theorem Still.trans {first second third : Level τ} (start : first.Still second)
    (rest : second.Still third) : first.Still third :=
  ⟨start.goes.trans rest.goes, rest.partitions_eq.trans start.partitions_eq,
    rest.invalidation_eq.trans start.invalidation_eq, rest.loading_eq.trans start.loading_eq⟩

variable [Scalar τ] {first second third : Level τ} {entries : Nat} {remarks : List (Event τ)}

theorem Still.touched (start : first.Still second)
    (rest : second.Touched entries remarks third) : first.Touched entries remarks third := by
  obtain ⟨invalidations, goes, putOff⟩ := rest.goes
  have goes := start.goes.trans goes
  rw [Nat.zero_add, Nat.zero_add] at goes
  have partitions := PartitionStore.disturbed_congr start.partitions_eq.symm
    (rfl : third.cold.base.partitions = _)
  have atOnce := rest.atOnce
  rw [start.goes.variant_eq] at putOff atOnce
  rw [← partitions, start.invalidation_eq, start.loading_eq] at atOnce
  exact ⟨⟨invalidations, goes, putOff⟩, atOnce⟩

theorem Touched.still (start : first.Touched entries remarks second)
    (rest : second.Still third) : first.Touched entries remarks third := by
  obtain ⟨invalidations, goes, putOff⟩ := start.goes
  have partitions := PartitionStore.disturbed_congr (rfl : first.cold.base.partitions = _)
    rest.partitions_eq
  have atOnce := start.atOnce
  rw [← partitions, ← rest.invalidation_eq, ← rest.loading_eq] at atOnce
  exact ⟨⟨invalidations, goes.trans rest.goes, putOff⟩, atOnce⟩

/-- What is remarked of a request, by the share of it that the cold side has to give. -/
inductive Remarked (before : Level τ) : Nat → List (Event τ) → Level τ → Prop
  | still {after : Level τ} (still : before.Still after) : Remarked before 0 [] after
  | touched {entries : Nat} {remarks : List (Event τ)} {after : Level τ} (something : 0 < entries)
      (touched : before.Touched entries remarks after) : Remarked before entries remarks after

theorem Remarked.goes {before after : Level τ} {entries : Nat} {remarks : List (Event τ)}
    (remarked : before.Remarked entries remarks after) :
    ∃ touches invalidations, before.cold.Goes touches invalidations after.cold ∧
      (before.cold.variant = .deferred →
        remarks.length = invalidations ∧ ∀ remark ∈ remarks, remark.isPass) := by
  cases remarked with
  | still still => exact ⟨0, 0, still.goes, fun _ => ⟨rfl, by simp⟩⟩
  | touched something touched =>
      obtain ⟨invalidations, goes, putOff⟩ := touched.goes
      exact ⟨1, invalidations, goes, putOff⟩

theorem sum_moved_deeds (level : Level τ) (demand : Demand) :
    ((level.deeds demand).map Deed.moved).sum = level.coldShare demand := by
  obtain ⟨request, entries⟩ := demand
  cases request <;>
    simp [deeds, coldShare, Deed.sum_moving, Deed.sum_deleting, Deed.moved, eq_comm]

end Level

namespace Merging

variable [EntryStore τ σ] [Scalar τ] {Valid : σ → Prop} {before after : World τ (Merging τ σ)}
  {deeds : List Deed}

theorem Step.still (silent : EntryStore.Silent τ σ) {deed? : Option Deed}
    (step : Step Valid before deed? after) (none : deed?.toList.countP Deed.isTouch = 0) :
    after.machine.remarks = before.machine.remarks ∧
      before.store.level.Still after.store.level := by
  cases step with
  | carry carry => exact ⟨rfl, .nothing _, rfl, rfl, rfl⟩
  | expect expectedEntries => exact ⟨rfl, .nothing _, rfl, rfl, rfl⟩
  | @seek merging machine point range sound =>
      have base := ColdTier.base_withBase (merging.cold.base.withCursors point range) merging.cold
      refine ⟨rfl, .seek _ point range, ?_, rfl, rfl⟩
      exact congrArg (·.partitions) base
  | find valid found => exact ⟨silent.find _ _ _ _ _ _ found, .nothing _, rfl, rfl, rfl⟩
  | insert valid something inserted =>
      exact ⟨silent.insert _ _ _ _ inserted, .nothing _, rfl, rfl, rfl⟩
  | delete valid enough deleted =>
      exact ⟨silent.delete _ _ _ _ deleted, .nothing _, rfl, rfl, rfl⟩
  | touch valid something allots touched => contradiction

theorem Step.touched {entries : Nat} (step : Step Valid before (some (.touch entries)) after) :
    ∃ remarks, after.machine.remarks = before.machine.remarks ++ remarks ∧
      before.store.level.Touched entries remarks after.store.level := by
  cases step with
  | @touch merging cold machine after located cost valid something allots touched =>
      obtain ⟨goes, loaded⟩ := ColdTier.touch_goes valid something allots.inRange touched
      obtain ⟨remarks, said, plain, grouped⟩ := ColdTier.touch_remarks something touched
      obtain ⟨_, _, _, ran, _, drained, entries, _⟩ :=
        ColdTier.touch_exists valid allots.inRange machine
      rw [touched] at ran
      cases ran
      refine ⟨remarks, said, ⟨cost.invalidations, goes, fun deferred => ?_⟩, fun atOnce => ?_⟩
      · obtain ⟨store, kept⟩ := ColdTier.exists_of_deferred deferred
        exact grouped store kept
      · obtain ⟨store, kept⟩ := ColdTier.exists_of_atOnce atOnce
        have once : cost.invalidations = 1 := goes.invalidations_eq atOnce
        have charges : charged merging.ledger located cost = (merging.ledger.record .invalidation
            cost.invalidationTime 1).record .loading cost.loadingTime 1 := by
          rw [charged, if_neg (by simpa using something), once, loaded]
        have taken : cost.entries = (located.map Located.entries).sum := by
          have left := allots.entries_drainAll
          simp only [ColdTier.entries, drained] at entries
          omega
        have givers : merging.cold.base.disturbed cold.base = located.length := by
          rw [drained]
          exact allots.disturbed_drainAll
        refine ⟨cost.invalidationTime, cost.loadingTime, ?_, ?_, ?_⟩
        · rw [plain store kept, taken]
          exact congrArg (fun count => [Event.touched count _ _ _]) givers.symm
        · exact congrArg OperationLedger.invalidation charges
        · exact congrArg OperationLedger.loading charges

/-- Deeds without a touch make no remark. -/
theorem Does.still (silent : EntryStore.Silent τ σ) (does : Does Valid before deeds after)
    (none : deeds.countP Deed.isTouch = 0) :
    after.machine.remarks = before.machine.remarks ∧
      before.store.level.Still after.store.level := by
  induction does with
  | done => exact ⟨rfl, .nothing _⟩
  | step next _ ih =>
      rw [List.countP_append, Nat.add_eq_zero_iff] at none
      obtain ⟨same, still⟩ := next.still silent none.1
      obtain ⟨moreSame, moreStill⟩ := ih none.2
      exact ⟨moreSame.trans same, still.trans moreStill⟩

theorem Does.touched (silent : EntryStore.Silent τ σ) (does : Does Valid before deeds after)
    (one : deeds.countP Deed.isTouch = 1) :
    ∃ remarks, after.machine.remarks = before.machine.remarks ++ remarks ∧
      before.store.level.Touched (deeds.map Deed.moved).sum remarks after.store.level := by
  induction does with
  | done => contradiction
  | @step first between last deed? deeds next rest ih =>
      rw [List.countP_append] at one
      rw [List.map_append, List.sum_append]
      by_cases quiet : deed?.toList.countP Deed.isTouch = 0
      · obtain ⟨same, still⟩ := next.still silent quiet
        obtain ⟨remarks, said, touched⟩ := ih (by omega)
        rw [Deed.sum_moved_eq_zero quiet, Nat.zero_add]
        exact ⟨remarks, said.trans (congrArg (· ++ remarks) same), still.touched touched⟩
      · obtain ⟨same, still⟩ := rest.still silent (by omega)
        obtain ⟨entries, rfl⟩ := Deed.exists_touch quiet
        obtain ⟨remarks, said, touched⟩ := next.touched
        rw [Deed.sum_moved_eq_zero (by omega : deeds.countP Deed.isTouch = 0)]
        exact ⟨remarks, same.trans said, touched.still still⟩

theorem Serves.remarked (silent : EntryStore.Silent τ σ) {demand : Demand}
    (serves : Serves Valid before demand.request (before.store.level.deeds demand) after) :
    ∃ remarks, after.machine.remarks = before.machine.remarks ++ remarks ∧
      before.store.level.Remarked (before.store.level.coldShare demand) remarks
        after.store.level := by
  obtain ⟨between, time, does, rfl⟩ := serves
  let ledger := between.store.ledger.record (.request demand.request) time 1
  obtain ⟨invalidation, loading⟩ : ledger.invalidation = between.store.ledger.invalidation ∧
      ledger.loading = between.store.ledger.loading :=
    between.store.ledger.parts_record_request demand.request time 1
  have counted : between.store.level.Still { between.store.level with ledger } :=
    ⟨.nothing _, rfl, invalidation, loading⟩
  have touches := before.store.level.countP_touch demand
  rw [← Level.sum_moved_deeds]
  by_cases something : 0 < before.store.level.coldShare demand
  · rw [if_pos something] at touches
    obtain ⟨remarks, said, touched⟩ := does.touched silent touches
    rw [← Level.sum_moved_deeds] at something
    exact ⟨remarks, said, .touched something (touched.still counted)⟩
  · rw [if_neg something] at touches
    obtain ⟨same, still⟩ := does.still silent touches
    rw [Deed.sum_moved_eq_zero touches]
    exact ⟨[], same.trans (List.append_nil _).symm, .still (still.trans counted)⟩

theorem Answers.remarked (silent : EntryStore.Silent τ σ) {demand? : Option Demand}
    (answers : Answers Valid before demand? after) :
    ∃ remarks, after.machine.remarks = before.machine.remarks ++ remarks ∧
      before.store.level.Remarked (demand?.elim 0 before.store.level.coldShare) remarks
        after.store.level := by
  cases demand? with
  | none =>
      cases answers
      exact ⟨[], (List.append_nil _).symm, .still (.nothing _)⟩
  | some demand => exact Serves.remarked silent answers

end Merging

theorem Call.remarks_of_idle [EntryStore τ σ] [Scalar τ] {call : Call τ} {world after : World τ σ}
    {result : Except (Error τ) τ} (idle : ¬call.isRequest)
    (ran : outcome call.action world = .ok (result, after)) :
    after.machine.remarks = world.machine.remarks ∧
      ∀ available, call.demand? available = none := by
  cases call with
  | access kind bytes =>
      have accessed := outcome_access kind bytes world
      rw [action, accessed] at ran
      cases ran
      exact ⟨world.machine.remarks_access kind bytes, fun _ => rfl⟩
  | resetLedgers =>
      cases ran
      exact ⟨rfl, fun _ => rfl⟩
  | insert | bulkload | find | findShare | delete => exact absurd rfl idle

namespace Index

variable [Scalar τ] {index inner after : Index τ} {merging : Merging τ (BTree τ)}
  {machine : Machine τ}

theorem call_remarked {call : Call τ} {result : Except (Error τ) τ}
    (settled : Index.Settled ⟨1, merging, machine⟩)
    (called : Index.call ⟨1, merging, machine⟩ call = .ok (result, after)) :
    ∃ (left : Merging τ (BTree τ)) (finish : Machine τ) (remarks : List (Event τ)),
      after = ⟨1, left, finish⟩ ∧ finish.remarks = machine.remarks ++ remarks ∧
      merging.level.Remarked (Index.coldShare ⟨1, merging, machine⟩ call) remarks left.level := by
  obtain ⟨_, left, finish, ran, _, answers, idle⟩ :=
    Merging.call_answers (Stack.conserves 0) settled call machine
  rw [call_of_outcome ran] at called
  cases called
  by_cases request : call.isRequest
  · obtain ⟨remarks, said, remarked⟩ := (answers request).remarked BTree.silent
    exact ⟨left, finish, remarks, rfl, said, remarked⟩
  · obtain rfl := idle request
    obtain ⟨same, none⟩ := Call.remarks_of_idle request ran
    refine ⟨left, finish, [], rfl, same.trans (List.append_nil _).symm, ?_⟩
    simp only [coldShare, Index.demand?, none]
    exact .still (.nothing _)

/-- A remark tells of a call how many partitions it has touched, what it has taken from them, and
by which times both parts of touches have grown. -/
def Tells (step : Index τ × Call τ) (remark : Event τ) : Prop :=
  ∃ result after before level invalidation loading,
    step.1.call step.2 = .ok (result, after) ∧ step.1.level? = some before ∧
      after.level? = some level ∧
      remark = .touched (before.cold.base.disturbed level.cold.base) (step.1.coldShare step.2)
        invalidation loading ∧
      level.ledger.invalidation = before.ledger.invalidation.record invalidation 1 ∧
      level.ledger.loading = before.ledger.loading.record loading 1

/-- The calls of a history that touch cold data. -/
def touching (history : List (Index τ × Call τ)) : List (Index τ × Call τ) :=
  history.filter fun step => 0 < step.1.coldShare step.2

theorem Runs.remarked {history : List (Index τ × Call τ)}
    (runs : Runs ⟨1, merging, machine⟩ history after) :
    ∃ (left : Merging τ (BTree τ)) (finish : Machine τ) (remarks : List (Event τ)),
      after = ⟨1, left, finish⟩ ∧ finish.remarks = machine.remarks ++ remarks ∧
      (∃ touches invalidations, merging.cold.Goes touches invalidations left.cold ∧
        (merging.cold.variant = .deferred →
          remarks.length = invalidations ∧ ∀ remark ∈ remarks, remark.isPass)) ∧
      (merging.cold.variant ≠ .deferred → List.Forall₂ Tells (touching history) remarks) := by
  generalize shape : (⟨1, merging, machine⟩ : Index τ) = index at runs
  induction runs generalizing merging machine with
  | nil =>
      cases shape
      exact ⟨merging, machine, [], rfl, (List.append_nil _).symm,
        ⟨0, 0, .nothing _, fun _ => ⟨rfl, by simp⟩⟩, fun _ => .nil⟩
  | @cons _ _ _ call _ _ settled called rest ih =>
      cases shape
      obtain ⟨between, start, remarks, rfl, said, remarked⟩ := call_remarked settled called
      obtain ⟨left, finish, more, rfl, saidMore, ⟨moreTouches, moreInvalidations, goesOn,
        putOffMore⟩, atOnceMore⟩ := ih rfl
      obtain ⟨touches, invalidations, goes, putOff⟩ := remarked.goes
      have same : between.cold.variant = merging.cold.variant := goes.variant_eq
      rw [same] at putOffMore atOnceMore
      refine ⟨left, finish, remarks ++ more, rfl, ?_, ?_, ?_⟩
      · rw [saidMore, said, List.append_assoc]
      · refine ⟨_, _, goes.trans goesOn, fun deferred => ?_⟩
        obtain ⟨length, passes⟩ := putOff deferred
        obtain ⟨moreLength, morePasses⟩ := putOffMore deferred
        refine ⟨by rw [List.length_append, length, moreLength], fun remark member => ?_⟩
        exact (List.mem_append.mp member).elim (passes remark) (morePasses remark)
      · intro mode
        have tells := atOnceMore mode
        generalize share : Index.coldShare ⟨1, merging, machine⟩ call = entries at remarked
        cases remarked with
        | still still =>
            have quiet : ¬0 < Index.coldShare ⟨1, merging, machine⟩ call := by omega
            rw [touching, List.filter_cons_of_neg (by simpa using quiet)]
            exact tells
        | touched something touched =>
            rw [touching, List.filter_cons_of_pos (by simpa [share] using something)]
            obtain ⟨invalidation, loading, rfl, invalidated, loaded⟩ := touched.atOnce mode
            refine .cons ?_ tells
            exact ⟨_, _, merging.level, between.level, invalidation, loading, called, rfl, rfl,
              by rw [share], invalidated, loaded⟩

/-- Whatever calls are made on adaptive merging over a tree: unless invalidation is put off, its
remarks are one for each call that touches cold data, in order, and so there are as many as
loadings. Where it is put off there is one for each pass, and nothing is remarked of touches. -/
theorem run_remarks {partitionSize startingEntries : Nat} (reachable : inner.Reachable)
    (direct : inner.depth = 0) (wraps : Wraps partitionSize startingEntries inner index)
    (calls : List (Call τ)) :
    ∃ results after level remarks, index.run calls = .ok (results, after) ∧
      after.level? = some level ∧ index.level?.map Level.variant = some level.variant ∧
      (index.history calls).map Prod.snd = calls ∧
      after.machine.remarks = index.machine.remarks ++ remarks ∧
      (level.variant ≠ .deferred →
        List.Forall₂ Tells (touching (index.history calls)) remarks ∧
          level.ledger.value (.operations .loading) = .count remarks.length) ∧
      (level.variant = .deferred → ∃ store, level.cold = .grouped store ∧
        remarks.length = store.passes ∧ ∀ remark ∈ remarks, remark.isPass) := by
  have settled : index.Settled := (Reachable.wrap reachable wraps).settled
  obtain ⟨results, after, ran, _, runs, whole⟩ := runs_exists settled calls
  obtain ⟨cold, _, _, new, rfl⟩ := wraps.charges
  obtain ⟨depth, tree, machine⟩ := inner
  cases direct
  let start : Merging τ (BTree τ) := .create cold.variant tree cold
  let created := machine.emit (start.creation machine.disk.device)
  have startViewed : Index.level? ⟨1, start, created⟩ = some start.level := rfl
  have runs : Runs ⟨1, start, created⟩ _ after := runs
  obtain ⟨left, finish, remarks, rfl, said, ⟨touches, invalidations, goes, putOff⟩, atOnce⟩ :=
    runs.remarked
  obtain ⟨level, viewed, grows⟩ := runs.grows startViewed
  cases viewed
  have variant : left.level.variant = cold.variant := grows.variant_eq
  refine ⟨results, _, left.level, remarks, ran, rfl, ?_, whole, said, ?_, ?_⟩
  · rw [variant]
    rfl
  · intro mode
    rw [variant] at mode
    have tells := atOnce mode
    have loadings := grows.loadings_eq
    have none : start.level.ledger.operations .loading = 0 := rfl
    rw [none, Nat.zero_add, List.countP_eq_length_filter] at loadings
    exact ⟨tells, congrArg Reading.count (loadings.trans tells.length_eq)⟩
  · intro deferred
    rw [variant] at deferred
    obtain ⟨length, passes⟩ := putOff deferred
    obtain ⟨store, rfl⟩ := ColdTier.exists_of_deferred deferred
    obtain ⟨last, lastCold, advances, _⟩ := goes.of_grouped
    refine ⟨last, lastCold, ?_, passes⟩
    rw [advances.passes_eq, new store rfl, length, Nat.zero_add]

theorem run_remarks_of_eager_merging :
    ∃ tree index : Index Rat,
      Index.tree (.create (.ssd ⟨⟨"SSD", 4, 8, 1, 2, 1, 1, 3, 1⟩, 0, 0⟩)) 1 1 16 = .ok tree ∧
      tree.depth = 0 ∧ tree.eager 4 5 = .ok index ∧
      ∃ results after level remarks,
        index.run [.find .point 3 2, .insert 1, .delete 4] = .ok (results, after) ∧
        after.level? = some level ∧ after.machine.remarks = index.machine.remarks ++ remarks ∧
        List.Forall₂ Tells
          (touching (index.history [.find .point 3 2, .insert 1, .delete 4])) remarks ∧
        level.ledger.value (.operations .loading) = .count remarks.length := by
  obtain ⟨tree, planted⟩ : ∃ tree : Index Rat,
      Index.tree (.create (.ssd ⟨⟨"SSD", 4, 8, 1, 2, 1, 1, 3, 1⟩, 0, 0⟩)) 1 1 16 = .ok tree :=
    ⟨_, rfl⟩
  obtain ⟨index, built, direct, variant⟩ : ∃ index, tree.eager 4 5 = .ok index ∧
      tree.depth = 0 ∧ index.level?.map Level.variant = some .eager := by
    cases planted
    exact ⟨_, rfl, rfl, rfl⟩
  obtain ⟨results, after, level, remarks, ran, viewed, same, _, said, atOnce, _⟩ :=
    run_remarks (.tree planted) direct (.eager built) [.find .point 3 2, .insert 1, .delete 4]
  rw [variant, Option.some.injEq] at same
  obtain ⟨tells, loadings⟩ := atOnce (by simp [← same])
  exact ⟨tree, index, planted, direct, built, results, after, level, remarks, ran, viewed, said,
    tells, loadings⟩

/-- A touch of grouped partitions that no pass follows is not remarked. -/
theorem run_of_unremarked_touch :
    ∃ tree index : Index Rat,
      Index.tree (.create (.ssd ⟨⟨"SSD", 4, 8, 1, 2, 1, 1, 3, 1⟩, 0, 0⟩)) 1 1 16 = .ok tree ∧
      tree.deferred 4 5 ⟨1, 1, 1⟩ = .ok index ∧
      ∃ results after level store, index.run [.find .point 1 1] = .ok (results, after) ∧
        after.level? = some level ∧ level.ledger.value (.operations .loading) = .count 1 ∧
        level.cold = .grouped store ∧ store.passes = 0 ∧ after.machine.remarks = [] := by
  obtain ⟨tree, planted⟩ : ∃ tree : Index Rat,
      Index.tree (.create (.ssd ⟨⟨"SSD", 4, 8, 1, 2, 1, 1, 3, 1⟩, 0, 0⟩)) 1 1 16 = .ok tree :=
    ⟨_, rfl⟩
  let calls : List (Call Rat) := [.find .point 1 1]
  let seen (after : Index Rat) : Option (Nat × Option Nat × Nat) := after.level?.map fun level =>
    (level.ledger.operations .loading, level.cold.grouped?.map GroupedStore.passes,
      after.machine.remarks.length)
  obtain ⟨index, built, found⟩ : ∃ index, tree.deferred 4 5 ⟨1, 1, 1⟩ = .ok index ∧
      (index.run calls).toOption.bind (fun done => seen done.2) = some (1, some 0, 0) := by
    cases planted
    exact ⟨_, rfl, by cbv⟩
  obtain ⟨results, after, ran, _⟩ :=
    runs_exists (Reachable.wrap (.tree planted) (.deferred built)).settled calls
  rw [ran] at found
  obtain ⟨level, viewed, values⟩ := Option.map_eq_some_iff.mp found
  simp only [Prod.mk.injEq, Option.map_eq_some_iff, List.length_eq_zero_iff] at values
  obtain ⟨loadings, ⟨store, grouped, passes⟩, remarks⟩ := values
  refine ⟨tree, index, planted, built, results, after, level, store, ran, viewed,
    congrArg Reading.count loadings, ?_, passes, remarks⟩
  cases tier : level.cold with
  | plain other => simp [tier, ColdTier.grouped?] at grouped
  | grouped other =>
      rw [tier, ColdTier.grouped?, Option.some.injEq] at grouped
      rw [grouped]

end Index

end MergeCost
