import MergeCost.Proofs.Index.Merging
import MergeCost.Simulation.Yields

/-!
What requests do to the entries of adaptive merging, deed by deed. A request is split between both
sides; all that comes of it is that entries leave the cold side, go into the wrapped index, or are
deleted there, with steps in between that move no entry. Whatever else is said about the effects of
requests is said about these steps one by one.
-/

namespace MergeCost

open Sim

inductive Deed where
  /-- Entries go into the wrapped index. -/
  | insert (entries : Nat)
  /-- Entries are deleted from the wrapped index. -/
  | delete (entries : Nat)
  /-- Entries leave the cold side. -/
  | touch (entries : Nat)
deriving Repr, DecidableEq

namespace Deed

def isTouch : Deed → Bool
  | touch _ => true
  | _ => false

def isInsert : Deed → Bool
  | insert _ => true
  | _ => false

def inserted : Deed → Nat
  | insert entries => entries
  | _ => 0

def deleted : Deed → Nat
  | delete entries => entries
  | _ => 0

def moved : Deed → Nat
  | touch entries => entries
  | _ => 0

/-- Entries that leave the cold side go into the wrapped index. -/
def moving (entries : Nat) : List Deed :=
  if entries = 0 then [] else [touch entries, insert entries]

def deleting (entries : Nat) : List Deed := if entries = 0 then [] else [delete entries]

theorem sum_moving (amount : Deed → Nat) (entries : Nat) :
    ((moving entries).map amount).sum =
      if entries = 0 then 0 else amount (touch entries) + amount (insert entries) := by
  cases entries <;> rfl

theorem sum_deleting (amount : Deed → Nat) (entries : Nat) :
    ((deleting entries).map amount).sum = if entries = 0 then 0 else amount (delete entries) := by
  cases entries <;> rfl

end Deed

/-- What a call comes to, once it has been held to the entries that there are. -/
structure Demand where
  request : Request
  entries : Nat
deriving Repr, DecidableEq

namespace Demand

def find? (lookup : Lookup) (entries repeats available : Nat) : Option Demand :=
  if min entries available = 0 ∨ repeats = 0 then none
  else some ⟨lookup.request, min entries available⟩

def delete? (entries available : Nat) : Option Demand :=
  if min entries available = 0 then none else some ⟨.delete, min entries available⟩

def inserted (demand : Demand) : Nat := if demand.request = .insert then demand.entries else 0

def deleted (demand : Demand) : Nat := if demand.request = .delete then demand.entries else 0

end Demand

theorem Split.cold_le {τ : Type} [Scalar τ] {entries cold hot : Nat} {carry : τ} {parts : Split τ}
    (found : Split.of entries cold hot carry = .ok parts) : parts.cold ≤ entries := by
  unfold Split.of at found
  split at found
  · cases found
    exact Nat.zero_le entries
  · simp only at found
    split at found
    · contradiction
    · cases found
      simp only
      omega

/-- What can be seen of a level with a cold side. -/
structure Level (τ : Type) where
  variant : MergingVariant
  cold : ColdTier τ
  ledger : OperationLedger τ
  carry : τ
  hot : Nat
  hotLedger : OperationLedger τ

namespace Level

variable {τ : Type}

def entries (level : Level τ) : Nat := level.cold.entries + level.hot

variable [Scalar τ]

/-- The share of a request that the cold side has to give. -/
def share (level : Level τ) (entries : Nat) : Nat :=
  match Split.of entries level.cold.entries level.hot level.carry with
  | .ok parts => parts.cold
  | .error _ => 0

def coldShare (level : Level τ) (demand : Demand) : Nat :=
  match demand.request with
  | .insert | .bulkload => 0
  | .findPoint | .findRange | .delete => level.share demand.entries

/-- What a demand makes the level do. -/
def deeds (level : Level τ) (demand : Demand) : List Deed :=
  let cold := level.share demand.entries
  match demand.request with
  | .insert => [.insert demand.entries]
  | .bulkload => []
  | .findPoint | .findRange => Deed.moving cold
  | .delete => Deed.deleting (demand.entries - cold) ++ (Deed.moving cold ++ Deed.deleting cold)

theorem share_le (level : Level τ) (entries : Nat) : level.share entries ≤ entries := by
  unfold share
  cases found : Split.of entries level.cold.entries level.hot level.carry with
  | ok parts => exact Split.cold_le found
  | error fault => exact Nat.zero_le entries

/-- What goes into the wrapped index is demanded or comes from the cold side. -/
theorem inserted_deeds (level : Level τ) (demand : Demand) :
    ((level.deeds demand).map Deed.inserted).sum =
      demand.inserted + ((level.deeds demand).map Deed.moved).sum := by
  obtain ⟨request, entries⟩ := demand
  cases request <;>
    simp [deeds, Deed.sum_moving, Deed.sum_deleting, Demand.inserted, Deed.inserted, Deed.moved]

theorem deleted_deeds (level : Level τ) (demand : Demand) :
    ((level.deeds demand).map Deed.deleted).sum = demand.deleted := by
  obtain ⟨request, entries⟩ := demand
  have enough := level.share_le entries
  cases request <;>
    simp [deeds, Deed.sum_moving, Deed.sum_deleting, Demand.deleted, Deed.deleted]
  split_ifs <;> omega

end Level

namespace Merging

variable {τ σ : Type} [EntryStore τ σ]

def level (merging : Merging τ σ) : Level τ where
  variant := merging.variant
  cold := merging.cold
  ledger := merging.ledger
  carry := merging.carry
  hot := EntryStore.entries merging.wrapped
  hotLedger := EntryStore.ledger merging.wrapped

variable [Scalar τ]

/-- A step of a request, and the deed in it if there is one. -/
inductive Step (Valid : σ → Prop) :
    World τ (Merging τ σ) → Option Deed → World τ (Merging τ σ) → Prop
  | carry {merging : Merging τ σ} {machine : Machine τ} (carry : τ) :
      Step Valid ⟨merging, machine⟩ none ⟨{ merging with carry }, machine⟩
  | expect {merging : Merging τ σ} {machine : Machine τ} (expectedEntries : Nat) :
      Step Valid ⟨merging, machine⟩ none ⟨{ merging with expectedEntries }, machine⟩
  | seek {merging : Merging τ σ} {machine : Machine τ} (point range : Nat)
      (sound : (merging.cold.base.withCursors point range).Sound) :
      Step Valid ⟨merging, machine⟩ none
        ⟨{ merging with
          cold := ColdTier.withBase (merging.cold.base.withCursors point range) merging.cold },
          machine⟩
  | find {merging : Merging τ σ} {wrapped : σ} {machine after : Machine τ} {lookup : Lookup}
      {entries repeats : Nat} {time : τ} (valid : Valid merging.wrapped)
      (found : outcome (EntryStore.find lookup entries repeats) ⟨merging.wrapped, machine⟩ =
        .ok (.ok time, ⟨wrapped, after⟩)) :
      Step Valid ⟨merging, machine⟩ none ⟨{ merging with wrapped }, after⟩
  | insert {merging : Merging τ σ} {wrapped : σ} {machine after : Machine τ} {entries : Nat}
      {time : τ} (valid : Valid merging.wrapped) (something : 0 < entries)
      (inserted : outcome (EntryStore.insert entries) ⟨merging.wrapped, machine⟩ =
        .ok (.ok time, ⟨wrapped, after⟩)) :
      Step Valid ⟨merging, machine⟩ (some (.insert entries)) ⟨{ merging with wrapped }, after⟩
  | delete {merging : Merging τ σ} {wrapped : σ} {machine after : Machine τ} {entries : Nat}
      {time : τ} (valid : Valid merging.wrapped)
      (enough : entries ≤ EntryStore.entries merging.wrapped)
      (deleted : outcome (EntryStore.delete entries) ⟨merging.wrapped, machine⟩ =
        .ok (.ok time, ⟨wrapped, after⟩)) :
      Step Valid ⟨merging, machine⟩ (some (.delete entries)) ⟨{ merging with wrapped }, after⟩
  | touch {merging : Merging τ σ} {cold : ColdTier τ} {machine after : Machine τ}
      {located : List Located} {cost : TouchCost τ} (valid : merging.cold.Valid)
      (something : located ≠ []) (allots : merging.cold.base.Allots located)
      (touched : outcome (ColdTier.touch located) ⟨merging.cold, machine⟩ =
        .ok (.ok cost, ⟨cold, after⟩)) :
      Step Valid ⟨merging, machine⟩ (some (.touch (located.map Located.entries).sum))
        ⟨{ merging with cold, ledger := charged merging.ledger located cost }, after⟩

/-- Steps one after the other, with all their deeds. -/
inductive Does (Valid : σ → Prop) :
    World τ (Merging τ σ) → List Deed → World τ (Merging τ σ) → Prop
  | done {world : World τ (Merging τ σ)} : Does Valid world [] world
  | step {first between last : World τ (Merging τ σ)} {deed? : Option Deed} {deeds : List Deed}
      (next : Step Valid first deed? between) (rest : Does Valid between deeds last) :
      Does Valid first (deed?.toList ++ deeds) last

variable {Valid : σ → Prop} {first second third world : World τ (Merging τ σ)}
  {earlier later deeds : List Deed}

theorem Does.trans (start : Does Valid first earlier second)
    (rest : Does Valid second later third) : Does Valid first (earlier ++ later) third := by
  induction start with
  | done => exact rest
  | step next _ ih =>
      rw [List.append_assoc]
      exact .step next (ih rest)

theorem Does.one {deed? : Option Deed} (step : Step Valid first deed? second) :
    Does Valid first deed?.toList second := by
  have does := Does.step step .done
  rwa [List.append_nil] at does

/-- What deeds leave of both sides. -/
structure Leaves (Valid : σ → Prop) (before : Merging τ σ) (deeds : List Deed)
    (after : Merging τ σ) : Prop where
  sides : before.Sides Valid → after.Sides Valid
  cold : after.cold.entries + (deeds.map Deed.moved).sum = before.cold.entries
  hot : EntryStore.entries after.wrapped + (deeds.map Deed.deleted).sum =
    EntryStore.entries before.wrapped + (deeds.map Deed.inserted).sum

omit [Scalar τ] in
theorem Leaves.trans {before between after : Merging τ σ}
    (start : before.Leaves Valid earlier between) (rest : between.Leaves Valid later after) :
    before.Leaves Valid (earlier ++ later) after := by
  have cold := start.cold
  have moreCold := rest.cold
  have hot := start.hot
  have moreHot := rest.hot
  refine ⟨fun sides => rest.sides (start.sides sides), ?_, ?_⟩
  · rw [List.map_append, List.sum_append]
    omega
  · rw [List.map_append, List.map_append, List.sum_append, List.sum_append]
    omega

omit [Scalar τ] in
/-- Deeds that insert no more than they move add no entries. -/
theorem Leaves.entries_le {before after : Merging τ σ} (leaves : before.Leaves Valid deeds after)
    (moved : (deeds.map Deed.inserted).sum ≤ (deeds.map Deed.moved).sum) :
    after.entries ≤ before.entries := by
  have hot := leaves.hot
  have cold := leaves.cold
  rw [Merging.entries, Merging.entries]
  omega

omit [Scalar τ] in
theorem Leaves.hot_le {before after : Merging τ σ} (leaves : before.Leaves Valid deeds after)
    (moved : (deeds.map Deed.inserted).sum ≤ (deeds.map Deed.moved).sum) :
    EntryStore.entries after.wrapped ≤ before.entries :=
  (Nat.le_add_left ..).trans (leaves.entries_le moved)

theorem Step.leaves (conserves : EntryStore.Conserves Valid) {deed? : Option Deed}
    (step : Step Valid first deed? second) :
    first.store.Leaves Valid deed?.toList second.store := by
  cases step with
  | carry carry => exact ⟨fun sides => ⟨sides.cold, sides.wrapped⟩, rfl, rfl⟩
  | expect expectedEntries => exact ⟨fun sides => ⟨sides.cold, sides.wrapped⟩, rfl, rfl⟩
  | seek point range sound =>
      refine ⟨fun sides => ⟨sides.cold.withCursors sound, sides.wrapped⟩, ?_, rfl⟩
      simp only [ColdTier.entries, ColdTier.base_withBase]
      rfl
  | @find merging _ machine _ lookup entries repeats _ valid found =>
      obtain ⟨_, _, _, ran, still, same⟩ := conserves.find valid lookup entries repeats machine
      rw [found] at ran
      cases ran
      exact ⟨fun sides => ⟨sides.cold, still⟩, rfl, same⟩
  | @insert merging _ machine _ entries _ valid _ inserted =>
      obtain ⟨_, _, _, ran, still, more⟩ := conserves.insert valid entries machine
      rw [inserted] at ran
      cases ran
      exact ⟨fun sides => ⟨sides.cold, still⟩, rfl, more⟩
  | @delete merging _ machine _ entries _ valid enough deleted =>
      obtain ⟨_, _, _, ran, still, fewer⟩ := conserves.delete valid entries machine
      rw [deleted] at ran
      cases ran
      refine ⟨fun sides => ⟨sides.cold, still⟩, rfl, ?_⟩
      exact (congrArg (· + entries) fewer).trans (Nat.sub_add_cancel enough)
  | @touch merging _ machine _ located _ valid _ allots touched =>
      obtain ⟨_, _, _, ran, still, drained, _⟩ :=
        ColdTier.touch_exists valid allots.inRange machine
      rw [touched] at ran
      cases ran
      refine ⟨fun sides => ⟨still, sides.wrapped⟩, ?_, rfl⟩
      simp only [ColdTier.entries, drained]
      exact allots.entries_drainAll

theorem Does.leaves (conserves : EntryStore.Conserves Valid)
    (does : Does Valid first deeds second) :
    first.store.Leaves Valid deeds second.store := by
  induction does with
  | done => exact ⟨id, rfl, rfl⟩
  | step next _ ih => exact (next.leaves conserves).trans ih

/-! Parts of requests -/

theorem findWrapped_does (conserves : EntryStore.Conserves Valid)
    (sides : world.store.Sides Valid) (lookup : Lookup) (entries repeats : Nat) (time : τ) :
    (findWrapped lookup entries repeats time).Yields world fun _ after =>
      Does Valid world [] after := by
  obtain ⟨taken, wrapped, after, found, _⟩ :=
    conserves.find sides.wrapped lookup entries repeats world.machine
  simp only [findWrapped, onWrapped, yields_bind, yields_zoom, yields_of_outcome found, yields_pure]
  exact .one (.find sides.wrapped found)

theorem insertWrapped_does (conserves : EntryStore.Conserves Valid)
    (sides : world.store.Sides Valid) {entries : Nat} (something : 0 < entries) :
    (onWrapped (EntryStore.insert entries)).Yields world fun _ after =>
      Does Valid world [.insert entries] after := by
  obtain ⟨taken, wrapped, after, inserted, _⟩ :=
    conserves.insert sides.wrapped entries world.machine
  simp only [onWrapped, yields_zoom, yields_of_outcome inserted]
  exact .one (.insert sides.wrapped something inserted)

theorem deleteWrapped_does (conserves : EntryStore.Conserves Valid)
    (sides : world.store.Sides Valid) {entries : Nat}
    (enough : entries ≤ EntryStore.entries world.store.wrapped) (time : τ) :
    (deleteWrapped entries time).Yields world fun _ after =>
      Does Valid world [.delete entries] after := by
  obtain ⟨taken, wrapped, after, deleted, _⟩ :=
    conserves.delete sides.wrapped entries world.machine
  simp only [deleteWrapped, onWrapped, yields_bind, yields_zoom, yields_of_outcome deleted,
    yields_pure]
  exact .one (.delete sides.wrapped enough deleted)

theorem touchCold_does (conserves : EntryStore.Conserves Valid) (sides : world.store.Sides Valid)
    (lookup : Lookup) {entries : Nat} (something : 0 < entries)
    (enough : entries ≤ world.store.cold.entries) :
    (touchCold lookup entries).Yields world fun cost after =>
      cost.entries = entries ∧ Does Valid world [.touch entries] after := by
  obtain ⟨located, point, range, found, sound, allots, sum⟩ :=
    PartitionStore.locate_exists sides.cold.base lookup entries
  let base := world.store.cold.base.withCursors point range
  let sought := ColdTier.withBase base world.store.cold
  have ran : outcome (ColdTier.locate lookup entries) ⟨world.store.cold, world.machine⟩ =
      .ok (.ok located, ⟨sought, world.machine⟩) := by
    simp only [ColdTier.locate, outcome_bind, outcome_store, after_ok, found, outcome_orCrash_ok,
      outcome_update, outcome_pure, sought, base]
  have valid : sought.Valid := sides.cold.withCursors sound
  have soughtBase : sought.base = base := ColdTier.base_withBase _ _
  have allotsSought : sought.base.Allots located := by
    rw [soughtBase]
    exact ⟨allots.distinct, allots.available⟩
  obtain ⟨cost, cold, after, touched, _, _, left, _⟩ :=
    ColdTier.touch_exists valid allotsSought.inRange world.machine
  have all : (located.map Located.entries).sum = entries := by
    rw [sum]
    exact Nat.min_eq_left enough
  have present : located ≠ [] := by
    rintro rfl
    exact absurd all something.ne
  have does : Does Valid world _ _ :=
    .step (.seek point range sound) (.one (.touch valid present allotsSought touched))
  rw [all] at does
  have entriesBefore : sought.entries = world.store.cold.entries := by
    rw [ColdTier.entries, soughtBase]
    rfl
  have fewer : cold.entries + entries = world.store.cold.entries := (does.leaves conserves).cold
  rw [yields_of_outcome (outcome_touchCold ran touched)]
  exact ⟨by omega, does⟩

theorem migrate_does (conserves : EntryStore.Conserves Valid) (sides : world.store.Sides Valid)
    (lookup : Lookup) {entries : Nat} (something : 0 < entries)
    (enough : entries ≤ world.store.cold.entries) (time : τ) :
    (migrate lookup entries time).Yields world fun moved after =>
      moved.1 = entries ∧ Does Valid world [.touch entries, .insert entries] after := by
  simp only [migrate, yields_bind, yields_pure]
  refine (touchCold_does conserves sides lookup something enough).mono ?_
  rintro cost between ⟨rfl, touched⟩
  have between := (touched.leaves conserves).sides sides
  exact (insertWrapped_does conserves between something).mono
    fun _ _ inserted => ⟨rfl, touched.trans inserted⟩

theorem findCold_does (conserves : EntryStore.Conserves Valid)
    (sides : world.store.Sides Valid) (lookup : Lookup) {entries : Nat}
    (enough : entries ≤ world.store.cold.entries) (repeats : Nat) (time : τ) :
    (if entries = 0 then pure time else findCold lookup entries repeats time).Yields world
      fun _ after => Does Valid world (Deed.moving entries) after := by
  rw [yields_ite]
  constructor
  · intro nothing
    rw [yields_pure, Deed.moving, if_pos nothing]
    exact .done
  · intro something
    rw [findCold, yields_bind, Deed.moving, if_neg something]
    refine (migrate_does conserves sides lookup (Nat.pos_of_ne_zero something) enough time).mono ?_
    rintro ⟨moved, total⟩ between ⟨_, migrated⟩
    simp only [yields_ite, yields_pure]
    refine ⟨fun _ => ?_, fun _ => migrated⟩
    have between := (migrated.leaves conserves).sides sides
    exact (findWrapped_does conserves between lookup moved (repeats - 1) total).mono
      fun _ _ found => migrated.trans found

theorem findHot_does (conserves : EntryStore.Conserves Valid) (sides : world.store.Sides Valid)
    (lookup : Lookup) (entries repeats : Nat) :
    (if entries = 0 then pure Scalar.zero else
      findWrapped lookup entries repeats Scalar.zero).Yields world
      fun _ after => Does Valid world [] after := by
  rw [yields_ite, yields_pure]
  exact ⟨fun _ => .done,
    fun _ => findWrapped_does conserves sides lookup entries repeats Scalar.zero⟩

theorem deleteHot_does (conserves : EntryStore.Conserves Valid)
    (sides : world.store.Sides Valid) {entries : Nat}
    (enough : entries ≤ EntryStore.entries world.store.wrapped) :
    (if entries = 0 then pure Scalar.zero else deleteWrapped entries Scalar.zero).Yields world
      fun _ after => Does Valid world (Deed.deleting entries) after := by
  rw [yields_ite]
  constructor
  · intro nothing
    rw [yields_pure, Deed.deleting, if_pos nothing]
    exact .done
  · intro something
    rw [Deed.deleting, if_neg something]
    exact deleteWrapped_does conserves sides enough Scalar.zero

theorem deleteCold_does (conserves : EntryStore.Conserves Valid)
    (sides : world.store.Sides Valid) {entries : Nat}
    (enough : entries ≤ world.store.cold.entries) (time : τ) :
    (if entries = 0 then pure time else deleteCold entries time).Yields world
      fun _ after => Does Valid world (Deed.moving entries ++ Deed.deleting entries) after := by
  rw [yields_ite]
  constructor
  · intro nothing
    rw [yields_pure, Deed.moving, Deed.deleting, if_pos nothing, if_pos nothing]
    exact .done
  · intro something
    rw [deleteCold, yields_bind, Deed.moving, Deed.deleting, if_neg something, if_neg something]
    refine (migrate_does conserves sides .point (Nat.pos_of_ne_zero something) enough time).mono ?_
    rintro ⟨moved, total⟩ between ⟨rfl, migrated⟩
    have leaves := migrated.leaves conserves
    -- what has just been moved is there to be deleted
    have there : moved ≤ EntryStore.entries between.store.wrapped := by
      have hot := leaves.hot
      simp only [List.map_cons, List.map_nil, List.sum_cons, List.sum_nil, Deed.deleted,
        Deed.inserted] at hot
      omega
    exact (deleteWrapped_does conserves (leaves.sides sides) there total).mono
      fun _ _ deleted => migrated.trans deleted

/-! Requests -/

theorem share_eq {merging : Merging τ σ} {entries : Nat} {parts : Split τ}
    (found : Split.of entries merging.cold.entries (EntryStore.entries merging.wrapped)
      merging.carry = .ok parts) :
    merging.level.share entries = parts.cold := by
  simp only [Level.share, level, found]

theorem split_does (Valid : σ → Prop) {entries : Nat} (enough : entries ≤ world.store.entries) :
    (split entries).Yields world fun parts after =>
      world.store.level.share entries = parts.cold ∧ parts.cold + parts.hot = entries ∧
        parts.cold ≤ world.store.cold.entries ∧
        parts.hot ≤ EntryStore.entries world.store.wrapped ∧ Does Valid world [] after := by
  obtain ⟨parts, found, whole, cold, hot⟩ := Split.of_exists world.store.carry enough
  rw [yields_of_outcome (outcome_split found world.machine)]
  exact ⟨share_eq found, whole, cold, hot, .one (.carry parts.carry)⟩

/-- A request has been served by these deeds, and then counted. -/
def Serves (Valid : σ → Prop) (before : World τ (Merging τ σ)) (request : Request)
    (deeds : List Deed) (after : World τ (Merging τ σ)) : Prop :=
  ∃ between time, Does Valid before deeds between ∧
    after = ⟨{ between.store with
      ledger := between.store.ledger.record (.request request) time 1 }, between.machine⟩

/-- What is demanded is served by the deeds of the level; where nothing is, nothing happens. -/
def Answers (Valid : σ → Prop) (before : World τ (Merging τ σ)) (demand? : Option Demand)
    (after : World τ (Merging τ σ)) : Prop :=
  match demand? with
  | none => after = before
  | some demand => Serves Valid before demand.request (before.store.level.deeds demand) after

/-- A request is closed by counting it; the check of the entries changes nothing more. -/
theorem close_yields {request : Request} {time : τ} {post : τ → World τ (Merging τ σ) → Prop}
    (holds : post time ⟨{ world.store with
      ledger := world.store.ledger.record (.request request) time 1 }, world.machine⟩) :
    (do
      record (.request request) time 1
      checkEntries
      return time : Sim τ (Merging τ σ) τ).Yields world post := by
  simp only [record, checkEntries, yields_bind, yields_update, yields_store, yields_ite,
    yields_pure]
  exact ⟨fun _ => yields_crash _ _, fun _ => holds⟩

theorem close_serves {between : World τ (Merging τ σ)} {deeds : List Deed}
    (does : Does Valid world deeds between) (request : Request) (time : τ) :
    (do
      record (.request request) time 1
      checkEntries
      return time : Sim τ (Merging τ σ) τ).Yields between fun _ after =>
        Serves Valid world request deeds after :=
  close_yields ⟨between, time, does, rfl⟩

theorem insert_answers (conserves : EntryStore.Conserves Valid) (sides : world.store.Sides Valid)
    (entries : Nat) :
    (insert entries).Yields world fun _ after =>
      Answers Valid world (if entries = 0 then none else some ⟨.insert, entries⟩) after := by
  rw [insert, yields_ite]
  constructor
  · intro nothing
    rw [yields_pure, if_pos nothing]
    rfl
  · intro something
    rw [yields_bind, if_neg something]
    refine (insertWrapped_does conserves sides (Nat.pos_of_ne_zero something)).mono ?_
    intro time between inserted
    rw [yields_bind, yields_update]
    have grown := inserted.trans (.one (.expect (between.store.expectedEntries + entries)))
    exact close_serves grown .insert time

theorem find_answers (conserves : EntryStore.Conserves Valid) (sides : world.store.Sides Valid)
    (lookup : Lookup) (entries repeats : Nat) :
    (find lookup entries repeats).Yields world fun _ after =>
      Answers Valid world (Demand.find? lookup entries repeats world.store.entries) after := by
  simp only [find, branches_bind]
  rw [yields_bind, yields_store, yields_ite]
  constructor
  · intro nothing
    rw [yields_pure, Demand.find?, if_pos nothing]
    rfl
  · intro something
    rw [Demand.find?, if_neg something, yields_bind]
    refine (split_does Valid (Nat.min_le_right ..)).mono ?_
    rintro parts begun ⟨share, _, coldEnough, _, split⟩
    rw [yields_bind]
    have begunSides := (split.leaves conserves).sides sides
    refine (findHot_does conserves begunSides lookup parts.hot repeats).mono ?_
    intro hotTime between hot
    rw [yields_bind]
    have found := (split.trans hot).leaves conserves
    have coldThere : parts.cold ≤ between.store.cold.entries := coldEnough.trans found.cold.ge
    refine (findCold_does conserves (found.sides sides) lookup coldThere repeats hotTime).mono ?_
    intro time after cold
    have does := split.trans (hot.trans cold)
    have deeds : world.store.level.deeds ⟨lookup.request, min entries world.store.entries⟩ =
        Deed.moving parts.cold := by
      cases lookup <;> simp only [Level.deeds, Lookup.request, share]
    simp only [Answers, deeds]
    exact close_serves does lookup.request time

omit [EntryStore τ σ] [Scalar τ] in
theorem expectFewer_yields {entries : Nat} {post : Unit → World τ (Merging τ σ) → Prop}
    (holds : post () ⟨{ world.store with
      expectedEntries := world.store.expectedEntries - entries }, world.machine⟩) :
    (expectFewer entries : Sim τ (Merging τ σ) Unit).Yields world post := by
  simp only [expectFewer, yields_bind, yields_store, yields_ite, yields_update]
  exact ⟨fun _ => yields_crash _ _, fun _ => holds⟩

theorem expectFewer_does (Valid : σ → Prop) (entries : Nat) :
    (expectFewer entries : Sim τ (Merging τ σ) Unit).Yields world fun _ after =>
      Does Valid world [] after :=
  expectFewer_yields (.one (.expect _))

theorem delete_answers (conserves : EntryStore.Conserves Valid) (sides : world.store.Sides Valid)
    (entries : Nat) :
    (delete entries).Yields world fun _ after =>
      Answers Valid world (Demand.delete? entries world.store.entries) after := by
  simp only [delete, branches_bind]
  rw [yields_bind, yields_store, yields_ite]
  constructor
  · intro nothing
    rw [yields_pure, Demand.delete?, if_pos nothing]
    rfl
  · intro something
    rw [Demand.delete?, if_neg something, yields_bind]
    refine (split_does Valid (Nat.min_le_right ..)).mono ?_
    rintro parts begun ⟨share, whole, coldEnough, hotEnough, split⟩
    rw [yields_bind]
    have begunLeaves := split.leaves conserves
    have hotThere : parts.hot ≤ EntryStore.entries begun.store.wrapped :=
      hotEnough.trans begunLeaves.hot.ge
    refine (deleteHot_does conserves (begunLeaves.sides sides) hotThere).mono ?_
    intro hotTime between hot
    rw [yields_bind]
    have left := (split.trans hot).leaves conserves
    have coldThere : parts.cold ≤ between.store.cold.entries := by
      have same := left.cold
      simp only [List.nil_append, Deed.sum_deleting, Deed.moved, ite_self] at same
      exact coldEnough.trans same.ge
    refine (deleteCold_does conserves (left.sides sides) coldThere hotTime).mono ?_
    intro time ended cold
    rw [yields_bind]
    refine (expectFewer_does Valid _).mono ?_
    intro _ after expected
    have does := split.trans (hot.trans (cold.trans expected))
    rw [List.append_nil] at does
    have rest : min entries world.store.entries - parts.cold = parts.hot := by omega
    have deeds : world.store.level.deeds ⟨.delete, min entries world.store.entries⟩ =
        Deed.deleting parts.hot ++ (Deed.moving parts.cold ++ Deed.deleting parts.cold) := by
      simp only [Level.deeds, share, rest]
    simp only [Answers, deeds]
    exact close_serves does .delete time

end Merging

end MergeCost
