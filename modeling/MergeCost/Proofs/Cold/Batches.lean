import MergeCost.Proofs.Cold.Lookups

/-!
Requests in parts. A request may be made at once or in two parts, one after the other: the same
entries leave the same partitions, and both cursors end in the same place. The second part goes on
with the partitions as the first one has left them.
-/

namespace MergeCost

open Sim PartitionStore

namespace PartitionStore

variable {store : PartitionStore}

/-- The store after a request has been located and touched. -/
def served (store : PartitionStore) (lookup : Lookup) (cursor : Nat) (located : List Located) :
    PartitionStore :=
  (store.moved cursor lookup).drainAll located

theorem remaining_served (lookup : Lookup) (cursor : Nat) (located : List Located)
    (partition : Nat) :
    (store.served lookup cursor located).remaining partition =
      store.remaining partition - entriesIn located partition := by
  rw [served, remaining_drainAll]
  cases lookup <;> rfl

theorem size_served (lookup : Lookup) (cursor : Nat) (located : List Located) :
    (store.served lookup cursor located).partitions.size = store.partitions.size := by
  rw [served, size_drainAll]
  cases lookup <;> rfl

theorem entries_served {located : List Located} (allots : store.Allots located) (lookup : Lookup)
    (cursor : Nat) :
    (store.served lookup cursor located).entries + (located.map Located.entries).sum =
      store.entries := by
  cases lookup <;>
    exact Allots.entries_drainAll ⟨allots.distinct, allots.available⟩

theorem moved_drainAll (store : PartitionStore) (cursor : Nat) (lookup : Lookup)
    (located : List Located) :
    (store.moved cursor lookup).drainAll located =
      (store.drainAll located).moved cursor lookup := by
  induction located generalizing store with
  | nil => rfl
  | cons part rest ih =>
      have first : (store.moved cursor lookup).drain part =
          (store.drain part).moved cursor lookup := by
        cases lookup <;> rfl
      rw [drainAll_cons, first, ih, drainAll_cons]

@[simp] theorem cursor_served (lookup : Lookup) (cursor : Nat) (located : List Located) :
    (store.served lookup cursor located).cursor lookup = cursor := by
  rw [served, moved_drainAll, cursor_moved]

/-- What is served in parts is served at once. -/
theorem served_served {earlier later whole : List Located}
    (adds : ∀ partition, entriesIn whole partition =
      entriesIn earlier partition + entriesIn later partition)
    (lookup : Lookup) (between cursor : Nat) :
    (store.served lookup between earlier).served lookup cursor later =
      store.served lookup cursor whole := by
  have atOnce : store.drainAll (earlier ++ later) = store.drainAll whole := by
    apply drainAll_congr
    intro partition
    rw [entriesIn_append, adds]
  simp only [served, moved_drainAll, moved_moved, ← drainAll_append, atOnce]

/-- Two lookups, of which the second one goes on with what the first one leaves, locate in each
partition what one lookup locates there, and move the cursor as far. -/
def InParts (store : PartitionStore) (lookup : Lookup) (first second : Nat) : Prop :=
  ∃ earlier later whole between cursor,
    store.locate lookup first = .ok (earlier, store.moved between lookup) ∧
    (store.served lookup between earlier).locate lookup second =
      .ok (later, (store.served lookup between earlier).moved cursor lookup) ∧
    store.locate lookup (first + second) = .ok (whole, store.moved cursor lookup) ∧
    ∀ partition, entriesIn whole partition =
      entriesIn earlier partition + entriesIn later partition

/-! Dealing in parts -/

theorem Deal.run_add (store : PartitionStore) (first second : Nat) (deal : Deal) :
    Deal.run store (first + second) deal =
      (Deal.run store first deal >>= Deal.run store second) := by
  induction first generalizing deal with
  | zero => rw [Nat.zero_add]; rfl
  | succ first ih =>
      rw [Nat.succ_add, Deal.run, Deal.run, bind_assoc]
      exact bind_congr fun partition => ih _

/-- How a deal goes on is up to its cursor and to what is left. -/
theorem Deal.run_congr {deal same after : Deal} {entries : Nat}
    (cursor : same.cursor = deal.cursor) (left : same.left = deal.left)
    (ran : Deal.run store entries deal = .ok after) (other : PartitionStore) :
    ∃ later, Deal.run other entries same = .ok later ∧ later.cursor = after.cursor ∧
      later.left = after.left := by
  induction entries generalizing deal same with
  | zero =>
      cases ran
      exact ⟨same, rfl, cursor, left⟩
  | succ entries ih =>
      obtain ⟨partition, found, ran⟩ := Except.exists_of_bind ran
      have givenCursor : (same.give other partition).cursor =
          (deal.give store partition).cursor := by simp only [Deal.give, left]
      have givenLeft : (same.give other partition).left = (deal.give store partition).left := by
        simp only [Deal.give, left]
      obtain ⟨later, rest, afterCursor, afterLeft⟩ := ih givenCursor givenLeft ran
      refine ⟨later, ?_, afterCursor, afterLeft⟩
      rw [Deal.run, left, cursor, found]
      exact rest

/-- The store that a deal leaves has left what the deal has left. -/
theorem Deal.Valid.left_served {deal : Deal} (valid : deal.Valid store) :
    (store.served .point deal.cursor (deal.located store)).undealt.left = deal.left := by
  have size : (store.served .point deal.cursor (deal.located store)).undealt.left.size =
      deal.left.size := by
    rw [valid.size_eq, undealt, Array.size_map, size_served]
  refine Array.ext size ?_
  intro partition inServed inside
  have here := left_undealt (store.served .point deal.cursor (deal.located store)) partition
  have least := valid.left_le partition
  rw [remaining_served, valid.entriesIn_located] at here
  simp only [Array.getD_eq_getD_getElem?, Array.getElem?_eq_getElem inServed,
    Array.getElem?_eq_getElem inside, Option.getD_some] at here least
  omega

theorem deal_inParts (sound : store.Sound) {first second : Nat} (some : 0 < first)
    (more : 0 < second) (enough : first + second ≤ store.entries) :
    store.InParts .point first second := by
  have inside := sound.pointCursor_lt (size_pos_of_entries (by omega))
  obtain ⟨earlier, earlierRan, earlierValid, left, earlierFound⟩ :=
    locate_deals inside some (by omega)
  obtain ⟨whole, wholeRan, wholeValid, _, wholeFound⟩ := locate_deals inside (by omega) enough
  obtain ⟨served, isServed⟩ :
    ∃ served, store.served .point earlier.cursor (earlier.located store) = served := ⟨_, rfl⟩
  have kept (partition : Nat) : served.remaining partition = store.remaining partition -
      entriesIn (earlier.located store) partition := by
    rw [← isServed, remaining_served]
  have cursor : served.pointCursor = earlier.cursor := by
    rw [← isServed, PartitionStore.served, pointCursor_drainAll]
    rfl
  have servedInside : served.pointCursor < served.partitions.size := by
    rw [cursor, ← isServed, size_served]
    exact earlierValid.cursor_lt
  have servedEntries := entries_served earlierValid.allots .point earlier.cursor
  have sum := earlierValid.sum_located
  rw [isServed] at servedEntries
  obtain ⟨later, laterRan, laterValid, _, laterFound⟩ :=
    locate_deals servedInside more (by omega)
  -- The whole deal goes on from the end of the first part just as the second part does.
  have goesOn : Deal.run store second earlier = .ok whole := by
    rw [Deal.run_add, earlierRan] at wholeRan
    exact wholeRan
  obtain ⟨same, sameRan, sameCursor, sameLeft⟩ :=
    Deal.run_congr cursor (isServed ▸ earlierValid.left_served) goesOn served
  obtain rfl : same = later := by
    rw [laterRan] at sameRan
    cases sameRan
    rfl
  refine ⟨earlier.located store, same.located served, whole.located store, earlier.cursor,
    whole.cursor, earlierFound, ?_, wholeFound, ?_⟩
  · rw [isServed, ← sameCursor]
    exact laterFound
  · intro partition
    have between := earlierValid.left_le partition
    have final := laterValid.left_le partition
    have kept := kept partition
    rw [wholeValid.entriesIn_located, earlierValid.entriesIn_located,
      laterValid.entriesIn_located]
    rw [earlierValid.entriesIn_located] at kept
    rw [sameLeft] at final ⊢
    omega

/-! Following a range in parts -/

section

variable {start visits entries turns part : Nat}

theorem Covers.not_lt {other more last : Nat}
    (covers : store.Covers start visits entries turns part)
    (longer : store.Covers start other entries more last) : ¬turns < more := by
  intro before
  have short := longer.short turns before
  have sum := covers.sum_eq
  have less : part < store.remaining ((start + turns) % store.partitions.size) :=
    (covers.fits.resolve_left (by omega)).2
  have next := store.ahead_mono start before
  have final := longer.sum_eq
  rw [ahead_concat] at next
  omega

/-- There is only one place where a range can end. -/
theorem Covers.unique {other same last : Nat}
    (covers : store.Covers start visits entries turns part)
    (again : store.Covers start other entries same last) : turns = same :=
  Nat.le_antisymm (Nat.le_of_not_lt (again.not_lt covers)) (Nat.le_of_not_lt (covers.not_lt again))

theorem mem_met_turn {turn : Nat} (inside : turn < store.partitions.size)
    (few : turns ≤ store.partitions.size) :
    (start + turn) % store.partitions.size ∈ store.met start turns ↔ turn < turns := by
  constructor
  · intro member
    obtain ⟨other, before, same⟩ := List.mem_map.mp member
    have before := List.mem_range.mp before
    exact turn_unique (by omega) inside same ▸ before
  · intro before
    exact List.mem_map.mpr ⟨turn, List.mem_range.mpr before, rfl⟩

theorem entriesIn_wholes {partitions : List Nat} (distinct : partitions.Nodup)
    (partition : Nat) :
    entriesIn (store.wholes partitions) partition =
      if partition ∈ partitions then store.remaining partition else 0 := by
  rw [wholes, entriesIn_map (distinct.filter _)]
  by_cases listed : partition ∈ partitions
  · simp only [List.mem_filter, listed, true_and, decide_eq_true_eq, if_true]
    split <;> omega
  · simp [listed]

/-- A range takes from each partition what it still needs when it comes there. -/
theorem Covers.entriesIn_stretch {turn : Nat}
    (covers : store.Covers start store.partitions.size entries turns part)
    (inside : turn < store.partitions.size) :
    entriesIn (store.stretch start turns part) ((start + turn) % store.partitions.size) =
      min (store.remaining ((start + turn) % store.partitions.size))
        (entries - store.ahead start turn) := by
  have tail : entriesIn (if part = 0 then []
      else [⟨(start + turns) % store.partitions.size, part⟩])
        ((start + turn) % store.partitions.size) = if turn = turns then part else 0 := by
    by_cases none : part = 0
    · simp [none]
    · have before := (covers.fits.resolve_left none).1
      rw [if_neg none, entriesIn_cons, entriesIn_nil, Nat.add_zero]
      refine if_congr ⟨turn_unique inside before, ?_⟩ rfl rfl
      rintro rfl
      rfl
  rw [stretch, entriesIn_append, tail, entriesIn_wholes (nodup_met covers.turns_le start)]
  simp only [mem_met_turn inside covers.turns_le]
  have sum := covers.sum_eq
  rcases Nat.lt_trichotomy turn turns with before | rfl | behind
  · have next := store.ahead_mono start before
    rw [ahead_concat] at next
    rw [if_pos before, if_neg (Nat.ne_of_lt before)]
    omega
  · rw [if_neg (Nat.lt_irrefl _), if_pos rfl]
    rcases covers.fits with none | ⟨_, less⟩ <;> omega
  · have next := store.ahead_mono start behind
    have later := store.ahead_mono start (Nat.le_of_lt behind)
    rw [ahead_concat] at next
    rw [if_neg (by omega), if_neg (by omega)]
    rcases covers.fits with none | ⟨_, less⟩ <;> omega

/-- What is left of a store by a range of so many entries that has begun at this cursor. -/
structure Resumes (served store : PartitionStore) (start first : Nat) : Prop where
  size_eq : served.partitions.size = store.partitions.size
  remaining_eq : ∀ turn < store.partitions.size,
    served.remaining ((start + turn) % store.partitions.size) =
      store.remaining ((start + turn) % store.partitions.size) -
        (first - store.ahead start turn)

theorem Covers.resumes (covers : store.Covers start store.partitions.size entries turns part)
    (cursor : Nat) :
    (store.served .range cursor (store.stretch start turns part)).Resumes store start entries where
  size_eq := size_served ..
  remaining_eq := by
    intro turn inside
    rw [remaining_served, covers.entriesIn_stretch inside]
    omega

variable {served : PartitionStore} {first second further last : Nat}

theorem Resumes.ahead_eq (resumes : served.Resumes store start first)
    (passed : store.ahead start turns ≤ first)
    (inside : turns + further ≤ store.partitions.size) :
    served.ahead ((start + turns) % store.partitions.size) further =
      store.ahead start (turns + further) - first := by
  induction further with
  | zero =>
      rw [Nat.add_zero, Nat.sub_eq_zero_of_le passed]
      rfl
  | succ further ih =>
      have here := resumes.remaining_eq (turns + further) (by omega)
      rw [ahead_concat, ih (by omega), resumes.size_eq, Nat.mod_add_mod, ← Nat.add_assoc turns,
        ahead_concat, Nat.add_assoc start, here]
      omega

section

variable (resumes : served.Resumes store start first) (inside : start < store.partitions.size)
  (more : 0 < second) (enough : first + second ≤ store.entries)
  (covers : store.Covers start store.partitions.size first turns part)
  (next : served.Covers ((start + turns) % store.partitions.size) served.partitions.size second
    further last)

include resumes inside more enough covers next

theorem Resumes.turns_le : turns + further ≤ store.partitions.size := by
  have all := ahead_size inside
  have sum := covers.sum_eq
  have round := covers.turns_le
  by_contra beyond
  have short := next.short (store.partitions.size - turns) (by omega)
  rw [resumes.ahead_eq (by omega) (by omega), Nat.add_sub_cancel' round] at short
  omega

/-- The second part of a range ends where the whole range does. -/
theorem Resumes.covers_whole :
    store.Covers start store.partitions.size (first + second) (turns + further)
      (first + second - store.ahead start (turns + further)) := by
  have all := ahead_size inside
  have passed : store.ahead start turns ≤ first := by
    have := covers.sum_eq
    omega
  have within := resumes.turns_le inside more enough covers next
  have sum := next.sum_eq
  rw [resumes.ahead_eq passed within] at sum
  constructor
  case turns_le => exact within
  case sum_eq => omega
  case short =>
    intro fewer before
    by_cases early : fewer ≤ turns
    · have := store.ahead_mono start early
      omega
    · obtain ⟨extra, rfl⟩ := Nat.exists_eq_add_of_le (Nat.le_of_not_le early)
      have short := next.short extra (by omega)
      rw [resumes.ahead_eq passed (by omega)] at short
      omega
  case fits =>
    by_cases whole : first + second - store.ahead start (turns + further) = 0
    · exact .inl whole
    · have before : turns + further < store.partitions.size := by
        refine Nat.lt_of_le_of_ne within ?_
        intro round
        rw [round] at whole
        omega
      have here := resumes.remaining_eq (turns + further) before
      obtain ⟨_, less⟩ := next.fits.resolve_left (by omega)
      rw [resumes.size_eq, Nat.mod_add_mod, Nat.add_assoc, here] at less
      exact .inr ⟨before, by omega⟩

omit inside enough in
/-- The second part of a range takes what the whole range takes beyond the first part. -/
theorem Resumes.entriesIn_stretch {turn : Nat} (turnInside : turn < store.partitions.size) :
    entriesIn (served.stretch ((start + turns) % store.partitions.size) further last)
        ((start + turn) % store.partitions.size) =
      min (store.remaining ((start + turn) % store.partitions.size) -
        (first - store.ahead start turn)) (second - (store.ahead start turn - first)) := by
  have sum := covers.sum_eq
  have here := resumes.remaining_eq turn turnInside
  by_cases early : turn < turns
  · -- Nothing is left of what the first part has passed.
    have passed := store.ahead_mono start early
    have none := (next.allots more).entriesIn_le ((start + turn) % store.partitions.size)
    rw [ahead_concat] at passed
    omega
  · obtain ⟨extra, rfl⟩ := Nat.exists_eq_add_of_le (Nat.le_of_not_lt early)
    have met : (start + (turns + extra)) % store.partitions.size =
        ((start + turns) % store.partitions.size + extra) % served.partitions.size := by
      rw [resumes.size_eq, Nat.mod_add_mod, Nat.add_assoc]
    rw [← here, met, next.entriesIn_stretch (by rw [resumes.size_eq]; omega),
      resumes.ahead_eq (by omega) (by omega)]

end

end

theorem range_inParts (sound : store.Sound) {first second : Nat} (some : 0 < first)
    (more : 0 < second) (enough : first + second ≤ store.entries) :
    store.InParts .range first second := by
  have inside := sound.rangeCursor_lt (size_pos_of_entries (by omega))
  obtain ⟨turns, part, covers, earlierFound⟩ := locate_covers inside some (by omega)
  obtain ⟨total, final, wholeCovers, wholeFound⟩ := locate_covers inside (by omega) enough
  have allots := covers.allots some
  have entries := entries_served allots .range
    ((store.rangeCursor + turns) % store.partitions.size)
  have resumes := covers.resumes ((store.rangeCursor + turns) % store.partitions.size)
  rw [covers.sum_stretch] at entries
  generalize isServed : store.served .range ((store.rangeCursor + turns) % store.partitions.size)
    (store.stretch store.rangeCursor turns part) = served at entries resumes
  have cursor : served.rangeCursor =
      (store.rangeCursor + turns) % store.partitions.size := by
    rw [← isServed, PartitionStore.served, rangeCursor_drainAll]
    rfl
  have servedInside : served.rangeCursor < served.partitions.size := by
    rw [cursor, resumes.size_eq]
    exact Nat.mod_lt _ (by omega)
  obtain ⟨further, last, next, laterFound⟩ := locate_covers servedInside more (by omega)
  rw [cursor] at next laterFound
  obtain rfl : total = turns + further :=
    wholeCovers.unique (resumes.covers_whole inside more enough covers next)
  rw [resumes.size_eq, Nat.mod_add_mod, Nat.add_assoc] at laterFound
  refine ⟨_, served.stretch ((store.rangeCursor + turns) % store.partitions.size) further last,
    _, _, _, earlierFound, ?_, wholeFound, ?_⟩
  · rw [isServed]
    exact laterFound
  · intro partition
    by_cases within : partition < store.partitions.size
    · obtain ⟨turn, turnInside, rfl⟩ := exists_turn inside within
      rw [wholeCovers.entriesIn_stretch turnInside, covers.entriesIn_stretch turnInside,
        resumes.entriesIn_stretch more covers next turnInside]
      omega
    · have outside := remaining_eq_zero (Nat.le_of_not_lt within)
      have servedOutside : served.remaining partition = 0 :=
        remaining_eq_zero (resumes.size_eq ▸ Nat.le_of_not_lt within)
      have none := (wholeCovers.allots (by omega)).entriesIn_le partition
      have noneBefore := allots.entriesIn_le partition
      have noneAfter := (next.allots more).entriesIn_le partition
      omega

/-! However much is asked for -/

theorem inParts_nothing_first (sound : store.Sound) (lookup : Lookup) (second : Nat) :
    store.InParts lookup 0 second := by
  obtain ⟨later, cursor, found, _⟩ := locate_moves sound lookup second
  have unserved : store.served lookup (store.cursor lookup) [] = store :=
    moved_cursor store lookup
  refine ⟨[], later, later, store.cursor lookup, cursor, ?_, ?_, ?_, ?_⟩
  · rw [moved_cursor, locate_nothing (Nat.zero_min _)]
  · rw [unserved, found]
  · rw [Nat.zero_add, found]
  · intro partition
    rw [entriesIn_nil, Nat.zero_add]

theorem inParts_nothing_more (sound : store.Sound) (lookup : Lookup) (first : Nat) :
    store.InParts lookup first 0 := by
  obtain ⟨earlier, cursor, found, _⟩ := locate_moves sound lookup first
  have kept := (store.served lookup cursor earlier).moved_cursor lookup
  rw [cursor_served] at kept
  refine ⟨earlier, [], earlier, cursor, cursor, found, ?_, found, ?_⟩
  · rw [locate_nothing (Nat.zero_min _), kept]
  · intro partition
    rw [entriesIn_nil, Nat.add_zero]

/-- What is asked for beyond what there is makes no difference to either part. -/
theorem InParts.of_min (sound : store.Sound) {lookup : Lookup} {first second : Nat}
    (inParts : store.InParts lookup (min first store.entries)
      (min second (store.entries - min first store.entries))) :
    store.InParts lookup first second := by
  obtain ⟨earlier, later, whole, between, cursor, earlierFound, laterFound, wholeFound, adds⟩ :=
    inParts
  obtain ⟨allots, sum⟩ := locate_allots sound earlierFound
  have left := entries_served allots lookup between
  have available : min second (store.entries - min first store.entries) =
      min second (store.served lookup between earlier).entries := by omega
  have together : min first store.entries +
      min second (store.entries - min first store.entries) =
      min (first + second) store.entries := by omega
  rw [locate_min] at earlierFound
  rw [available, locate_min] at laterFound
  rw [together, locate_min] at wholeFound
  exact ⟨earlier, later, whole, between, cursor, earlierFound, laterFound, wholeFound, adds⟩

theorem locate_inParts (sound : store.Sound) (lookup : Lookup) (first second : Nat) :
    store.InParts lookup first second := by
  apply InParts.of_min sound
  rcases Nat.eq_zero_or_pos (min first store.entries) with nothing | some
  · rw [nothing]
    exact inParts_nothing_first sound lookup _
  rcases Nat.eq_zero_or_pos (min second (store.entries - min first store.entries)) with
    nothing | more
  · rw [nothing]
    exact inParts_nothing_more sound lookup _
  cases lookup with
  | point => exact deal_inParts sound some more (by omega)
  | range => exact range_inParts sound some more (by omega)

end PartitionStore

variable {τ : Type} [Scalar τ]

namespace ColdTier

/-- Locates so many entries and touches them. -/
def fetch (lookup : Lookup) (entries : Nat) : Sim τ (ColdTier τ) (List Located) := do
  let located ← locate lookup entries
  let _ ← touch located
  return located

theorem fetch_exists {tier : ColdTier τ} (valid : tier.Valid) {lookup : Lookup}
    {entries cursor : Nat} {located : List Located}
    (found : tier.base.locate lookup entries = .ok (located, tier.base.moved cursor lookup))
    (machine : Machine τ) :
    ∃ after : World τ (ColdTier τ),
      outcome (fetch lookup entries) ⟨tier, machine⟩ = .ok (.ok located, after) ∧
      after.store.Valid ∧ after.store.base = tier.base.served lookup cursor located := by
  obtain ⟨sought, base, ran, sent, moved, allots, _⟩ := locate_exists valid lookup entries machine
  rw [found] at ran
  cases ran
  have inside : (withBase (tier.base.moved cursor lookup) tier).base.InRange located := by
    rw [base_withBase]
    exact allots.inRange
  obtain ⟨_, left, after, touched, stillValid, drained, _⟩ := touch_exists moved inside machine
  refine ⟨⟨left, after⟩, ?_, stillValid, ?_⟩
  · simp only [fetch, outcome_bind, sent, after_ok, touched, outcome_pure]
  · rw [drained, base_withBase]
    rfl

/-- Entries may be fetched in two requests or in one, on whatever machines: the partitions and both
cursors are left alike, and the requests take as many entries from each partition. -/
theorem fetch_in_parts {tier : ColdTier τ} (reachable : tier.Reachable) (lookup : Lookup)
    (first second : Nat) (firstMachine secondMachine machine : Machine τ) :
    ∃ earlier later whole, ∃ between apart atOnce : World τ (ColdTier τ),
      outcome (fetch lookup first) ⟨tier, firstMachine⟩ = .ok (.ok earlier, between) ∧
      outcome (fetch lookup second) ⟨between.store, secondMachine⟩ = .ok (.ok later, apart) ∧
      outcome (fetch lookup (first + second)) ⟨tier, machine⟩ = .ok (.ok whole, atOnce) ∧
      apart.store.base = atOnce.store.base ∧
      (∀ partition, entriesIn earlier partition + entriesIn later partition =
        entriesIn whole partition) ∧
      (whole.map Located.entries).sum = min (first + second) tier.entries := by
  have valid := reachable.valid
  obtain ⟨earlier, later, whole, halfway, cursor, earlierFound, laterFound, wholeFound, adds⟩ :=
    locate_inParts valid.base lookup first second
  obtain ⟨between, earlierRan, betweenValid, betweenBase⟩ :=
    fetch_exists valid earlierFound firstMachine
  rw [← betweenBase] at laterFound
  obtain ⟨apart, laterRan, _, apartBase⟩ := fetch_exists betweenValid laterFound secondMachine
  obtain ⟨atOnce, wholeRan, _, wholeBase⟩ := fetch_exists valid wholeFound machine
  refine ⟨earlier, later, whole, between, apart, atOnce, earlierRan, laterRan, wholeRan, ?_, ?_,
    (locate_allots valid.base wholeFound).2⟩
  · rw [apartBase, betweenBase, served_served adds, wholeBase]
  · intro partition
    exact (adds partition).symm

/-- The second request asks for more than there is. -/
theorem fetch_in_parts_of_uneven :
    (ColdTier.plain uneven : ColdTier Rat).Reachable ∧
      ∀ firstMachine secondMachine machine : Machine Rat,
        ∃ later, ∃ between apart atOnce : World Rat (ColdTier Rat),
          outcome (fetch .range 3) ⟨.plain uneven, firstMachine⟩ =
            .ok (.ok [⟨3, 2⟩, ⟨0, 1⟩], between) ∧
          outcome (fetch .range 9) ⟨between.store, secondMachine⟩ = .ok (.ok later, apart) ∧
          outcome (fetch .range 12) ⟨.plain uneven, machine⟩ =
            .ok (.ok [⟨3, 2⟩, ⟨0, 3⟩, ⟨2, 2⟩], atOnce) ∧
          apart.store.base = atOnce.store.base ∧ entriesIn later 0 = 2 ∧ entriesIn later 2 = 2 := by
  refine ⟨uneven_reachable, ?_⟩
  intro firstMachine secondMachine machine
  have earlierFound : (ColdTier.plain uneven : ColdTier Rat).base.locate .range 3 =
      .ok ([⟨3, 2⟩, ⟨0, 1⟩], uneven.moved 0 .range) := by cbv
  have wholeFound : (ColdTier.plain uneven : ColdTier Rat).base.locate .range 12 =
      .ok ([⟨3, 2⟩, ⟨0, 3⟩, ⟨2, 2⟩], uneven.moved 3 .range) := by cbv
  obtain ⟨between, sent, _⟩ :=
    fetch_exists uneven_reachable.valid earlierFound firstMachine
  obtain ⟨atOnce, served, _⟩ := fetch_exists uneven_reachable.valid wholeFound machine
  obtain ⟨earlier, later, whole, middle, apart, final, earlierRan, laterRan, wholeRan, same,
    adds, _⟩ := fetch_in_parts uneven_reachable .range 3 9 firstMachine secondMachine machine
  rw [sent] at earlierRan
  rw [served] at wholeRan
  cases earlierRan
  cases wholeRan
  have first : 1 + entriesIn later 0 = 3 := adds 0
  have second : 0 + entriesIn later 2 = 2 := adds 2
  exact ⟨later, between, apart, atOnce, sent, laterRan, served, same, by omega, by omega⟩

end ColdTier

end MergeCost
