import MergeCost.Proofs.Cold.Passes
import MergeCost.Proofs.Index.History
import MergeCost.Proofs.Index.Tree

/-!
What the ledgers of adaptive merging count. Each request counts once, however many entries it is
for; each touch counts once as a loading, and once as an invalidation unless invalidation is put
off; and the wrapped index sees one insert for each insert and for each touch.
-/

namespace MergeCost

open Sim

variable {τ : Type}

/-- The number of all requests. -/
def OperationLedger.served (ledger : OperationLedger τ) : Nat :=
  total (ledger.requests.map Tally.operations)

theorem OperationLedger.served_congr {first second : OperationLedger τ}
    (same : ∀ request, first.operations (.request request) = second.operations (.request request)) :
    first.served = second.served := by
  have sum (ledger : OperationLedger τ) : ledger.served =
      (Request.all.map fun request => ledger.operations (.request request)).sum := by
    rw [served, requests, List.map_map]
    rfl
  rw [sum, sum, List.map_congr_left fun request _ => same request]

theorem OperationLedger.served_record [Scalar τ] (ledger : OperationLedger τ) (request : Request)
    (time : τ) (operations : Nat) :
    (ledger.record (.request request) time operations).served = ledger.served + operations := by
  cases request <;>
    · simp only [served, requests, Request.all, record, tally_modify, Tally.record, total_eq_sum,
        List.map_cons, List.map_nil, List.sum_cons, List.sum_nil]
      simp
      omega

namespace Deed

theorem countP_touch_moving (entries : Nat) :
    (moving entries).countP isTouch = if 0 < entries then 1 else 0 := by
  cases entries <;> rfl

theorem countP_insert_moving (entries : Nat) :
    (moving entries).countP isInsert = (moving entries).countP isTouch := by
  cases entries <;> rfl

theorem countP_touch_deleting (entries : Nat) : (deleting entries).countP isTouch = 0 := by
  cases entries <;> rfl

theorem countP_insert_deleting (entries : Nat) : (deleting entries).countP isInsert = 0 := by
  cases entries <;> rfl

end Deed

theorem Demand.countP_find? (lookup : Lookup) (entries repeats available : Nat) :
    ((Demand.find? lookup entries repeats available).toList.countP fun demand =>
      demand.request = .insert) = 0 := by
  unfold Demand.find?
  split
  · rfl
  · cases lookup <;> rfl

theorem Demand.countP_delete? (entries available : Nat) :
    ((Demand.delete? entries available).toList.countP fun demand =>
      demand.request = .insert) = 0 := by
  unfold Demand.delete?
  split <;> rfl

namespace Merging

variable {σ : Type}

/-- What a number of touches leaves behind at a level; requests are not counted yet. -/
structure Tracks (before : Merging τ σ) (touches : Nat) (after : Merging τ σ) : Prop where
  variant_eq : after.variant = before.variant
  requests_eq : ∀ request,
    after.ledger.operations (.request request) = before.ledger.operations (.request request)
  loadings_eq : after.ledger.operations .loading = before.ledger.operations .loading + touches
  goes : ∃ invalidations, before.cold.Goes touches invalidations after.cold ∧
    after.ledger.operations .invalidation =
      before.ledger.operations .invalidation + invalidations

theorem Tracks.idle {before after : Merging τ σ} (variant : after.variant = before.variant)
    (ledger : after.ledger = before.ledger) (cold : after.cold = before.cold) :
    before.Tracks 0 after := by
  refine ⟨variant, fun request => ?_, ?_, 0, ?_, ?_⟩
  · rw [ledger]
  · rw [ledger, Nat.add_zero]
  · rw [cold]
    exact .nothing before.cold
  · rw [ledger, Nat.add_zero]

theorem Tracks.trans {first second third : Merging τ σ} {earlier later : Nat}
    (start : first.Tracks earlier second) (rest : second.Tracks later third) :
    first.Tracks (earlier + later) third := by
  obtain ⟨invalidations, goes, counted⟩ := start.goes
  obtain ⟨moreInvalidations, goesOn, moreCounted⟩ := rest.goes
  refine ⟨rest.variant_eq.trans start.variant_eq,
    fun request => (rest.requests_eq request).trans (start.requests_eq request), ?_,
    invalidations + moreInvalidations, goes.trans goesOn, ?_⟩
  · rw [rest.loadings_eq, start.loadings_eq, Nat.add_assoc]
  · rw [moreCounted, counted, Nat.add_assoc]

variable [EntryStore τ σ] [Scalar τ] {Valid : σ → Prop} {before after : World τ (Merging τ σ)}
  {deeds : List Deed}

omit [EntryStore τ σ] in
theorem operations_charged (ledger : OperationLedger τ) {located : List Located}
    (something : located ≠ []) (cost : TouchCost τ) (operation : Operation) :
    (charged ledger located cost).operations operation = ledger.operations operation +
      (if .invalidation = operation then cost.invalidations else 0) +
      if .loading = operation then cost.loadings else 0 := by
  rw [charged, if_neg (by simpa using something), OperationLedger.operations,
    OperationLedger.operations_record, OperationLedger.operations_record]
  rfl

theorem Step.tracks {deed? : Option Deed} (step : Step Valid before deed? after) :
    before.store.Tracks (deed?.toList.countP Deed.isTouch) after.store := by
  cases step with
  | carry carry => exact .idle rfl rfl rfl
  | expect expectedEntries => exact .idle rfl rfl rfl
  | seek point range sound => exact ⟨rfl, fun _ => rfl, rfl, 0, .seek _ point range, rfl⟩
  | find valid found => exact .idle rfl rfl rfl
  | insert valid something inserted => exact .idle rfl rfl rfl
  | delete valid enough deleted => exact .idle rfl rfl rfl
  | @touch merging cold machine after located cost valid something allots touched =>
      obtain ⟨goes, loaded⟩ := ColdTier.touch_goes valid something allots.inRange touched
      have charges := operations_charged merging.ledger something cost
      refine ⟨rfl, fun request => ?_, ?_, cost.invalidations, goes, ?_⟩
      · exact charges (.request request)
      · rw [charges, loaded]
        rfl
      · exact charges .invalidation

theorem Does.tracks (does : Does Valid before deeds after) :
    before.store.Tracks (deeds.countP Deed.isTouch) after.store := by
  induction does with
  | done => exact .idle rfl rfl rfl
  | step next _ ih =>
      rw [List.countP_append]
      exact next.tracks.trans ih

/-! Inserts into the wrapped index -/

theorem Step.insertions (tallies : EntryStore.Tallies Valid) {deed? : Option Deed}
    (step : Step Valid before deed? after) :
    EntryStore.insertions after.store.wrapped =
      EntryStore.insertions before.store.wrapped + deed?.toList.countP Deed.isInsert := by
  cases step with
  | carry carry => rfl
  | expect expectedEntries => rfl
  | seek point range sound => rfl
  | find valid found => exact tallies.find valid _ _ _ _ _ found
  | insert valid something inserted => exact tallies.insert valid something _ _ inserted
  | delete valid enough deleted => exact tallies.delete valid _ _ _ deleted
  | touch valid something allots touched => rfl

theorem Does.insertions (tallies : EntryStore.Tallies Valid)
    (does : Does Valid before deeds after) :
    EntryStore.insertions after.store.wrapped =
      EntryStore.insertions before.store.wrapped + deeds.countP Deed.isInsert := by
  induction does with
  | done => rfl
  | step next _ ih => rw [ih, next.insertions tallies, List.countP_append, Nat.add_assoc]

theorem Serves.requests {request : Request} (serves : Serves Valid before request deeds after)
    (other : Request) :
    after.store.ledger.operations (.request other) =
      before.store.ledger.operations (.request other) + if request = other then 1 else 0 := by
  obtain ⟨between, time, does, rfl⟩ := serves
  have recorded := OperationLedger.operations_record between.store.ledger (.request request)
    (.request other) time 1
  simp only [Operation.request.injEq] at recorded
  rw [← does.tracks.requests_eq other]
  exact recorded

/-- Of each kind of request, just those that are answered are counted. -/
theorem Answers.requests {demand? : Option Demand} (answers : Answers Valid before demand? after)
    (other : Request) :
    after.store.ledger.operations (.request other) =
      before.store.ledger.operations (.request other) +
        demand?.toList.countP fun demand => demand.request = other := by
  cases demand? with
  | none =>
      cases answers
      rfl
  | some demand =>
      have counted := Serves.requests answers other
      simpa using counted

theorem tallies (conserves : EntryStore.Conserves Valid) :
    EntryStore.Tallies (Settled Valid : Merging τ σ → Prop) where
  insert := by
    intro world settled entries something
    refine (insert_answers conserves settled.toSides entries).mono ?_
    intro _ after answers
    rw [if_neg something.ne'] at answers
    exact answers.requests .insert
  find := by
    intro world settled lookup entries repeats
    refine (find_answers conserves settled.toSides lookup entries repeats).mono ?_
    intro _ after answers
    have counted := answers.requests .insert
    rw [Demand.countP_find?] at counted
    exact counted
  delete := by
    intro world settled entries
    refine (delete_answers conserves settled.toSides entries).mono ?_
    intro _ after answers
    have counted := answers.requests .insert
    rw [Demand.countP_delete?] at counted
    exact counted

end Merging

theorem Stack.tallies [Scalar τ] (depth : Nat) :
    EntryStore.Tallies (Stack.Settled depth : Stack τ depth → Prop) := by
  cases depth with
  | zero => exact BTree.tallies
  | succ depth => exact Merging.tallies (Stack.conserves depth)

namespace Level

theorem countP_touch [Scalar τ] (level : Level τ) (demand : Demand) :
    (level.deeds demand).countP Deed.isTouch = if 0 < level.coldShare demand then 1 else 0 := by
  obtain ⟨request, entries⟩ := demand
  cases request with
  | insert | bulkload => rfl
  | findPoint | findRange => exact Deed.countP_touch_moving _
  | delete =>
      simp only [deeds, List.countP_append, Deed.countP_touch_deleting, Nat.zero_add, Nat.add_zero]
      exact Deed.countP_touch_moving _

/-- The wrapped index gets an insert for an insert, and one for each touch. -/
theorem countP_insert [Scalar τ] (level : Level τ) (demand : Demand) :
    (level.deeds demand).countP Deed.isInsert =
      (if demand.request = .insert then 1 else 0) + (level.deeds demand).countP Deed.isTouch := by
  obtain ⟨request, entries⟩ := demand
  cases request <;>
    simp [deeds, Deed.isTouch, Deed.isInsert, Deed.countP_insert_moving,
      Deed.countP_touch_deleting, Deed.countP_insert_deleting]

/-- How the counts of a level go on after so many requests with so many touches among them. -/
structure Grows (before : Level τ) (asked touches : Nat) (after : Level τ) : Prop where
  variant_eq : after.variant = before.variant
  served_eq : after.ledger.served = before.ledger.served + asked
  loadings_eq : after.ledger.operations .loading = before.ledger.operations .loading + touches
  goes : ∃ invalidations, before.cold.Goes touches invalidations after.cold ∧
    after.ledger.operations .invalidation =
      before.ledger.operations .invalidation + invalidations
  /-- The inserts into the wrapped index are those of the level and its loadings. -/
  insertions_eq : after.hotLedger.operations (.request .insert) +
      (before.ledger.operations (.request .insert) + before.ledger.operations .loading) =
    before.hotLedger.operations (.request .insert) +
      (after.ledger.operations (.request .insert) + after.ledger.operations .loading)

theorem Grows.nothing (level : Level τ) : level.Grows 0 0 level :=
  ⟨rfl, rfl, rfl, ⟨0, .nothing level.cold, rfl⟩, rfl⟩

theorem Grows.trans {first second third : Level τ} {asked touches moreAsked moreTouches : Nat}
    (start : first.Grows asked touches second) (rest : second.Grows moreAsked moreTouches third) :
    first.Grows (asked + moreAsked) (touches + moreTouches) third := by
  obtain ⟨invalidations, goes, counted⟩ := start.goes
  obtain ⟨moreInvalidations, goesOn, moreCounted⟩ := rest.goes
  have insertions := start.insertions_eq
  have moreInsertions := rest.insertions_eq
  refine ⟨rest.variant_eq.trans start.variant_eq, ?_, ?_,
    ⟨invalidations + moreInvalidations, goes.trans goesOn, ?_⟩, by omega⟩
  · rw [rest.served_eq, start.served_eq, Nat.add_assoc]
  · rw [rest.loadings_eq, start.loadings_eq, Nat.add_assoc]
  · rw [moreCounted, counted, Nat.add_assoc]

end Level

namespace Merging

variable {σ : Type} [EntryStore τ σ] [Scalar τ] {Valid : σ → Prop}
  {before after : World τ (Merging τ σ)}

theorem Serves.grows (tallies : EntryStore.Tallies Valid) {demand : Demand}
    (serves : Serves Valid before demand.request (before.store.level.deeds demand) after) :
    before.store.level.Grows 1 (if 0 < before.store.level.coldShare demand then 1 else 0)
      after.store.level := by
  have insertions := serves.requests .insert
  obtain ⟨between, time, does, rfl⟩ := serves
  have tracks := does.tracks
  have wrapped := does.insertions tallies
  rw [Level.countP_insert, Level.countP_touch] at wrapped
  rw [Level.countP_touch] at tracks
  obtain ⟨invalidations, goes, counted⟩ := tracks.goes
  let ledger := between.store.ledger.record (.request demand.request) time 1
  have recorded (operation : Operation) (part : operation ≠ .request demand.request) :
      ledger.operations operation = between.store.ledger.operations operation := by
    simp [ledger, OperationLedger.operations, OperationLedger.operations_record, part.symm]
  have loadings := (recorded .loading (by simp)).trans tracks.loadings_eq
  refine ⟨tracks.variant_eq, ?_, loadings, ⟨invalidations, goes, ?_⟩, ?_⟩
  · exact (OperationLedger.served_record ..).trans
      (congrArg (· + 1) (OperationLedger.served_congr tracks.requests_eq))
  · exact (recorded .invalidation (by simp)).trans counted
  · have hot : (EntryStore.ledger between.store.wrapped).operations (.request .insert) = _ :=
      wrapped
    have before : EntryStore.insertions before.store.wrapped =
      (EntryStore.ledger before.store.wrapped).operations (.request .insert) := rfl
    simp only [level, ledger] at hot loadings insertions ⊢
    omega

/-- The counts go on by one request where there is a demand, and by a touch where it has a cold
share. -/
theorem Answers.grows (tallies : EntryStore.Tallies Valid) {demand? : Option Demand}
    (answers : Answers Valid before demand? after) :
    before.store.level.Grows (if demand?.isSome then 1 else 0)
      (if 0 < demand?.elim 0 before.store.level.coldShare then 1 else 0) after.store.level := by
  cases demand? with
  | none =>
      cases answers
      exact .nothing _
  | some demand => exact Serves.grows tallies answers

end Merging

/-- The variant whose touches are charged in the way of a tier. -/
def ColdTier.variant : ColdTier τ → MergingVariant
  | plain store => match store.invalidation with
    | .blockRewrite => .eager
    | .inPlace => .inPlace
  | grouped _ => .deferred

namespace ColdTier

theorem exists_of_inPlace {tier : ColdTier τ} (variant : tier.variant = .inPlace) :
    ∃ store, tier = .plain store ∧ store.invalidation = .inPlace := by
  cases tier with
  | plain store =>
      cases mode : store.invalidation with
      | inPlace => exact ⟨store, rfl, mode⟩
      | blockRewrite => simp [ColdTier.variant, mode] at variant
  | grouped store => cases variant

theorem exists_of_deferred {tier : ColdTier τ} (variant : tier.variant = .deferred) :
    ∃ store, tier = .grouped store := by
  cases tier with
  | plain store => cases mode : store.invalidation <;> simp [ColdTier.variant, mode] at variant
  | grouped store => exact ⟨store, rfl⟩

theorem exists_of_atOnce {tier : ColdTier τ} (variant : tier.variant ≠ .deferred) :
    ∃ store, tier = .plain store := by
  cases tier with
  | plain store => exact ⟨store, rfl⟩
  | grouped store => exact absurd rfl variant

end ColdTier

theorem ColdTier.Goes.variant_eq {before after : ColdTier τ} {touches invalidations : Nat}
    (goes : before.Goes touches invalidations after) : after.variant = before.variant := by
  cases goes with
  | plain _ invalidation => simp only [variant, invalidation]
  | grouped => rfl

/-- Unless invalidation is put off, each touch is one. -/
theorem ColdTier.Goes.invalidations_eq {before after : ColdTier τ} {touches invalidations : Nat}
    (goes : before.Goes touches invalidations after) (atOnce : before.variant ≠ .deferred) :
    invalidations = touches := by
  cases goes with
  | plain => rfl
  | grouped => exact absurd rfl atOnce

theorem PartitionStore.create_charges {total recordSize partitionSize : Nat}
    {invalidation : Invalidation} {store : PartitionStore}
    (created : (create total recordSize partitionSize invalidation :
      Except (Error τ) PartitionStore) = .ok store) :
    store.recordSize = recordSize ∧ store.invalidation = invalidation := by
  unfold create at created
  split at created
  · contradiction
  · simp only at created
    split at created
    · contradiction
    · cases created
      exact ⟨rfl, rfl⟩

namespace Index

variable [Scalar τ] {index inner after : Index τ} {level : Level τ}

/-- A new level charges its touches in the way of its variant, and has made no pass. -/
theorem Wraps.charges {partitionSize startingEntries : Nat}
    (wraps : Wraps partitionSize startingEntries inner index) :
    ∃ cold : ColdTier τ, cold.entries = startingEntries ∧
      cold.base.recordSize = inner.recordSize ∧
      (∀ store, cold = .grouped store → store.passes = 0) ∧
      index = inner.wrap cold.variant cold := by
  cases wraps with
  | eager built =>
      obtain ⟨store, created, rest⟩ := Except.exists_of_bind built
      obtain ⟨recordSize, invalidation⟩ := PartitionStore.create_charges created
      cases rest
      refine ⟨.plain store, (PartitionStore.create_sound created).2, recordSize, nofun, ?_⟩
      simp only [ColdTier.variant, invalidation]
  | deferred built =>
      obtain ⟨store, created, rest⟩ := Except.exists_of_bind built
      obtain ⟨grouped, arranged, wrapped⟩ := Except.exists_of_bind rest
      obtain ⟨rfl, new, _⟩ := GroupedStore.create_blocks arranged
      cases wrapped
      refine ⟨.grouped grouped, (PartitionStore.create_sound created).2,
        (PartitionStore.create_charges created).1, ?_, rfl⟩
      rintro _ ⟨⟩
      exact new
  | inPlace built =>
      unfold Index.inPlace at built
      split at built
      · obtain ⟨store, created, rest⟩ := Except.exists_of_bind built
        obtain ⟨recordSize, invalidation⟩ := PartitionStore.create_charges created
        cases rest
        refine ⟨.plain store, (PartitionStore.create_sound created).2, recordSize, nofun, ?_⟩
        simp only [ColdTier.variant, invalidation]
      · cases built

def demand? (index : Index τ) (call : Call τ) : Option Demand := call.demand? index.entries

/-- The share of a call that the outermost cold side has to give. -/
def coldShare (index : Index τ) (call : Call τ) : Nat :=
  match index.level? with
  | none => 0
  | some level => (index.demand? call).elim 0 level.coldShare

theorem call_grows {call : Call τ} {result : Except (Error τ) τ} (settled : index.Settled)
    (viewed : index.level? = some level) (called : index.call call = .ok (result, after)) :
    ∃ left, after.level? = some left ∧
      level.Grows (if (index.demand? call).isSome then 1 else 0)
        (if 0 < index.coldShare call then 1 else 0) left := by
  obtain ⟨depth, stack, machine⟩ := index
  cases depth with
  | zero => cases viewed
  | succ depth =>
      cases viewed
      obtain ⟨_, left, finish, ran, _, answers, idle⟩ :=
        Merging.call_answers (Stack.conserves depth) settled call machine
      rw [call_of_outcome ran] at called
      cases called
      refine ⟨left.level, rfl, ?_⟩
      by_cases request : call.isRequest
      · exact (answers request).grows (Stack.tallies depth)
      · have none : Index.demand? ⟨depth + 1, stack, machine⟩ call = none := by
          cases call <;> first | rfl | exact absurd rfl request
        rw [idle request]
        simp only [coldShare, none]
        exact .nothing _

theorem Runs.grows {history : List (Index τ × Call τ)} (runs : Runs index history after)
    (viewed : index.level? = some level) :
    ∃ left, after.level? = some left ∧
      level.Grows (history.countP fun step => (step.1.demand? step.2).isSome)
        (history.countP fun step => 0 < step.1.coldShare step.2) left := by
  induction runs generalizing level with
  | nil => exact ⟨level, viewed, .nothing level⟩
  | cons settled called rest ih =>
      obtain ⟨between, betweenViewed, start⟩ := call_grows settled viewed called
      obtain ⟨left, leftViewed, grows⟩ := ih betweenViewed
      refine ⟨left, leftViewed, ?_⟩
      have whole := start.trans grows
      simp only [List.countP_cons, Nat.add_comm _ (ite _ _ _), decide_eq_true_eq] at whole ⊢
      exact whole

/-- Whatever calls are made on an index with a cold side, its requests count once for each call that
comes to anything, its loadings once for each call with a cold share, and so do its invalidations
unless they are put off. The wrapped index has seen one insert for each insert and each loading. -/
theorem run_counts {partitionSize startingEntries : Nat} (reachable : inner.Reachable)
    (wraps : Wraps partitionSize startingEntries inner index) (calls : List (Call τ)) :
    ∃ results after level, index.run calls = .ok (results, after) ∧ after.level? = some level ∧
      index.level?.map Level.variant = some level.variant ∧
      (index.history calls).map Prod.snd = calls ∧
      level.ledger.value .totalOperations =
        .count ((index.history calls).countP fun step => (step.1.demand? step.2).isSome) ∧
      level.ledger.value (.operations .loading) =
        .count ((index.history calls).countP fun step => 0 < step.1.coldShare step.2) ∧
      (level.variant ≠ .deferred →
        level.ledger.value (.operations .invalidation) =
          level.ledger.value (.operations .loading)) ∧
      level.hotLedger.operations (.request .insert) =
        inner.ledger.operations (.request .insert) +
          (level.ledger.operations (.request .insert) + level.ledger.operations .loading) := by
  have settled : index.Settled := (Reachable.wrap reachable wraps).settled
  obtain ⟨results, after, ran, _, runs, whole⟩ := runs_exists settled calls
  obtain ⟨cold, _, _, _, rfl⟩ := wraps.charges
  let start : Level τ := (Merging.create cold.variant inner.stack cold).level
  have viewed : (inner.wrap cold.variant cold).level? = some start := rfl
  obtain ⟨level, leftViewed, grows⟩ := runs.grows viewed
  obtain ⟨invalidations, goes, counted⟩ := grows.goes
  have served : start.ledger.served = 0 := rfl
  have none (operation : Operation) : start.ledger.operations operation = 0 := by
    rcases operation with request | _ | _
    · cases request <;> rfl
    · rfl
    · rfl
  have asked := grows.served_eq
  have loadings := grows.loadings_eq
  have insertions := grows.insertions_eq
  rw [served, Nat.zero_add] at asked
  rw [none, Nat.zero_add] at loadings counted
  rw [none, none] at insertions
  refine ⟨results, after, level, ran, leftViewed, ?_, whole, congrArg Reading.count asked,
    congrArg Reading.count loadings, ?_, insertions⟩
  · rw [viewed, grows.variant_eq]
    rfl
  · intro atOnce
    rw [grows.variant_eq] at atOnce
    have each := goes.invalidations_eq atOnce
    exact congrArg Reading.count (counted.trans (each.trans loadings.symm))

theorem run_counts_of_nested_merging :
    ∃ tree inner index : Index Rat,
      Index.tree (.create (.pcm ⟨⟨"PCM", 64, 1, 2⟩, 0⟩)) 1 1 8 = .ok tree ∧
      tree.inPlace 4 5 = .ok inner ∧ inner.eager 4 7 = .ok index ∧
      ∃ results after level,
        index.run [.find .point 7 2, .insert 0, .delete 5, .insert 1] = .ok (results, after) ∧
        after.level? = some level ∧ level.ledger.value .totalOperations = .count 3 ∧
        level.ledger.value (.operations .loading) = .count 2 ∧
        level.hotLedger.operations (.request .insert) =
          inner.ledger.operations (.request .insert) +
            (level.ledger.operations (.request .insert) + level.ledger.operations .loading) := by
  obtain ⟨tree, planted⟩ : ∃ tree : Index Rat,
      Index.tree (.create (.pcm ⟨⟨"PCM", 64, 1, 2⟩, 0⟩)) 1 1 8 = .ok tree := ⟨_, rfl⟩
  obtain ⟨inner, first⟩ : ∃ inner, tree.inPlace 4 5 = .ok inner := by
    cases planted
    exact ⟨_, rfl⟩
  let calls : List (Call Rat) := [.find .point 7 2, .insert 0, .delete 5, .insert 1]
  obtain ⟨index, second, asked, moved⟩ : ∃ index, inner.eager 4 7 = .ok index ∧
      ((index.history calls).countP fun step => (step.1.demand? step.2).isSome) = 3 ∧
      ((index.history calls).countP fun step => 0 < step.1.coldShare step.2) = 2 := by
    cases planted
    cases first
    exact ⟨_, rfl, by cbv, by cbv⟩
  obtain ⟨results, after, level, ran, viewed, _, _, served, loadings, _, insertions⟩ :=
    run_counts (.wrap (.tree planted) (.inPlace first)) (.eager second) calls
  rw [asked] at served
  rw [moved] at loadings
  exact ⟨tree, inner, index, planted, first, second, results, after, level, ran, viewed, served,
    loadings, insertions⟩

end Index

end MergeCost
